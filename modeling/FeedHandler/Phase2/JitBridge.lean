import FeedHandler.Core.SpscInterleaving
import FeedHandler.Journal.JournalFormat

/-! The bridge from the merged stream to a consumer on another thread. Every event is offered
to a ring once; the steps of the bridge and of the consumer come in any order. -/
namespace FeedHandler

structure JitSignalEvent where
  venue : UInt8 := 0
  type : UInt8 := 0
  side : UInt8 := 0
  rawType : UInt8 := 0
  sequence : UInt64 := 0
  exchangeTsNs : UInt64 := 0
  ingestTsNs : UInt64 := 0
  symbolU64 : UInt64 := 0
  orderId : UInt64 := 0
  matchId : UInt64 := 0
  qty : UInt32 := 0
  price : UInt32 := 0
  deriving DecidableEq, Repr

structure JitBridgeStats where
  published : UInt64 := 0
  dropped : UInt64 := 0
  deriving DecidableEq, Repr

namespace JitBridge

def convert (ev : BookEvent) : JitSignalEvent where
  venue := ev.venue.code
  type := ev.type.code
  side := ev.side.code
  rawType := ev.rawType
  sequence := ev.sequence
  exchangeTsNs := ev.exchangeTsNs
  ingestTsNs := ev.ingestTsNs
  symbolU64 := ev.symbol.asU64
  orderId := ev.orderId
  matchId := ev.matchId
  qty := ev.qty
  price := ev.price

end JitBridge

/-- The bridge and the consumer with the ring between them. Without a publisher, or with one
that has no ring, `attached` is false. -/
structure JitThreads (bits : Nat) where
  attached : Bool
  threads : SpscRing.Threads JitSignalEvent bits
  coming : List BookEvent
  stats : JitBridgeStats := {}
  calls : List (JitSignalEvent × Bool) := []

namespace JitThreads

open JitBridge SpscRing

variable {bits : Nat}

def start (bits : Nat) (attached : Bool) (events : List BookEvent) : JitThreads bits where
  attached := attached
  threads := .start {}
  coming := events

/-- The counters behind a call of `on_merged_event`. -/
def count (s : JitThreads bits) (call : JitSignalEvent × Bool) : JitThreads bits :=
  { s with
    calls := s.calls ++ [call]
    stats := if call.2 then { s.stats with published := s.stats.published + 1 }
      else { s.stats with dropped := s.stats.dropped + 1 } }

/-- The next step of `on_merged_event`; between two events the next one is begun. -/
def bridge (s : JitThreads bits) : JitThreads bits :=
  match s.threads.producer with
  | .idle =>
    match s.coming with
    | [] => s
    | ev :: rest =>
      if s.attached then { s with threads := s.threads.produce (convert ev), coming := rest }
      else { s with coming := rest }.count (convert ev, false)
  | _ =>
    let next := s.threads.produce {}
    (next.pushes.drop s.threads.pushes.length).foldl count { s with threads := next }

inductive Turn where
  | bridge
  | consumer

def step (s : JitThreads bits) : Turn → JitThreads bits
  | .bridge => s.bridge
  | .consumer => { s with threads := s.threads.consume }

/-- The events that the ring has taken. -/
def accepted (s : JitThreads bits) : List JitSignalEvent := (s.calls.filter Prod.snd).map Prod.fst

end JitThreads

namespace SpscRing

variable {α : Type*} {bits : Nat} {s : Threads α bits} {pending : List α}

/-- The item that is being pushed. -/
def Producer.item : Producer α bits → Option α
  | .idle => none
  | .loadedHead item _ | .hasRoom item _ | .copied item _ => some item

namespace Threads

/-- A push goes on or returns. -/
theorem produce_busy {item : α} (busy : s.producer.item = some item) (next : α) :
    (s.produce next).producer.item = some item ∧ (s.produce next).pushes = s.pushes ∨
      (s.produce next).producer = .idle ∧
        ∃ taken, (s.produce next).pushes = s.pushes ++ [(item, taken)] := by
  unfold produce
  cases place : s.producer with
  | idle => rw [place] at busy; cases busy
  | loadedHead held head =>
    rw [place] at busy
    cases busy
    simp only
    split
    · exact .inr ⟨rfl, false, rfl⟩
    · exact .inl ⟨rfl, rfl⟩
  | hasRoom held head => exact .inl ⟨(congrArg _ place).symm.trans busy, rfl⟩
  | copied held head =>
    rw [place] at busy
    cases busy
    exact .inr ⟨rfl, true, rfl⟩

theorem produce_idle (idle : s.producer = .idle) (next : α) :
    (s.produce next).producer.item = some next ∧ (s.produce next).pushes = s.pushes := by
  unfold produce
  rw [idle]
  exact ⟨rfl, rfl⟩

@[simp] theorem consume_pushes : s.consume.pushes = s.pushes := by
  unfold consume
  split <;> try rfl
  split <;> rfl

@[simp] theorem consume_producer : s.consume.producer = s.producer := by
  unfold consume
  split <;> try rfl
  split <;> rfl

theorem pushed_eq (s : Threads α bits) : s.pushed = (s.pushes.filter Prod.snd).map Prod.fst := by
  rw [pushed]
  induction s.pushes with
  | nil => rfl
  | cons call rest ih =>
    obtain ⟨item, taken⟩ := call
    cases taken <;> simp [ih]

/-- How many steps the consumer has made in its call. -/
def progress (s : Threads α bits) : Nat :=
  match s.consumer with
  | .idle => 0
  | .loadedTail _ => 1
  | .hasItem _ => 2
  | .copied _ _ => 3

/-- How many steps the consumer has to make for the items that have been pushed; four for each. -/
def left (s : Threads α bits) : Nat := 4 * (s.pushed.length - s.popped.length) - s.progress

theorem progress_le (s : Threads α bits) : s.progress ≤ 3 := by
  unfold progress
  split <;> decide

theorem Fifo.waiting (fifo : s.Fifo pending) : s.pushed.length - s.popped.length = pending.length := by
  rw [fifo.pushed, List.length_append, Nat.add_sub_cancel_left]

/-- A step of the consumer brings it nearer to having popped everything. -/
theorem Fifo.nearer (fifo : s.Fifo pending) : s.consume.left ≤ s.left - 1 := by
  have waiting := fifo.waiting
  obtain ⟨queued, _, _, consuming⟩ := fifo
  unfold Threads.consume left progress
  cases place : s.consumer with
  | idle =>
    simp only [Threads.pushed, Threads.popped] at waiting ⊢
    omega
  | loadedTail tail =>
    simp only [Consuming, place] at consuming
    subst consuming
    simp only
    split
    · next empty =>
      rw [queued.empty_iff.mp empty, List.length_nil] at waiting
      have same : (s.pops ++ [none]).filterMap id = s.pops.filterMap id := by simp
      simp only [Threads.pushed, Threads.popped, same] at waiting ⊢
      omega
    · simp only [Threads.pushed, Threads.popped] at waiting ⊢
      omega
  | hasItem tail =>
    simp only [Threads.pushed, Threads.popped] at waiting ⊢
    omega
  | copied item tail =>
    simp only [Consuming, place] at consuming
    have some_pending : pending ≠ [] := by
      rintro rfl
      cases consuming.2
    have positive := List.length_pos_iff.mpr some_pending
    simp only [Threads.pushed, Threads.popped, List.filterMap_append, List.length_append]
      at waiting ⊢
    simp
    omega

/-- After four steps for each item that waits, everything has been popped. -/
theorem Fifo.drains (fifo : s.Fifo pending) {n : Nat} (enough : 4 * pending.length ≤ n) :
    (Threads.consume^[n] s).popped = s.pushed := by
  have run : ∀ n, ∀ s : Threads α bits, (∃ pending, s.Fifo pending) →
      (∃ pending, (Threads.consume^[n] s).Fifo pending) ∧ (Threads.consume^[n] s).left ≤ s.left - n ∧
        (Threads.consume^[n] s).pushed = s.pushed := by
    intro n
    induction n with
    | zero => exact fun s fifo => ⟨fifo, le_rfl, rfl⟩
    | succ n ih =>
      rintro s ⟨pending, fifo⟩
      have near := fifo.nearer
      have same : s.consume.pushed = s.pushed := by rw [Threads.pushed, consume_pushes, Threads.pushed]
      obtain ⟨later, left, pushed⟩ := ih s.consume fifo.consume
      rw [Function.iterate_succ_apply]
      exact ⟨later, left.trans (by omega), pushed.trans same⟩
  obtain ⟨⟨rest, later⟩, left, pushed⟩ := run n s ⟨pending, fifo⟩
  have few := (Threads.consume^[n] s).progress_le
  have waiting := fifo.waiting
  have none_left := later.waiting
  simp only [Threads.left] at left
  have empty : rest = [] := List.length_eq_zero_iff.mp (by omega)
  have split := later.pushed
  rw [empty, List.append_nil, pushed] at split
  exact split.symm

end Threads

end SpscRing

namespace JitThreads

open JitBridge SpscRing

variable {bits : Nat} {s : JitThreads bits} {events : List BookEvent}

/-- The bridge's books: every event is behind it, in its hands or still to come, the counters
are those of its calls, and its calls are the pushes unless it has no ring. -/
structure Ledger (events : List BookEvent) (s : JitThreads bits) : Prop where
  fifo : ∃ pending, s.threads.Fifo pending
  order : events.map convert =
    s.calls.map Prod.fst ++ (s.threads.producer.item.toList ++ s.coming.map convert)
  published : s.stats.published = UInt64.ofNat (s.calls.countP fun call => call.2)
  dropped : s.stats.dropped = UInt64.ofNat (s.calls.countP fun call => !call.2)
  attached : s.attached = true → s.calls = s.threads.pushes
  detached : s.attached = false →
    s.accepted = [] ∧ s.threads.pushes = [] ∧ s.threads.producer = .idle

theorem start_ledger (attached : Bool) (events : List BookEvent) :
    Ledger events (start bits attached events) where
  fifo := ⟨[], Threads.start_fifo ({} : JitSignalEvent)⟩
  order := rfl
  published := rfl
  dropped := rfl
  attached := fun _ => rfl
  detached := fun _ => ⟨rfl, rfl, rfl⟩

theorem accepted_count (s : JitThreads bits) (call : JitSignalEvent × Bool) :
    (s.count call).accepted = s.accepted ++ if call.2 then [call.1] else [] := by
  obtain ⟨item, taken⟩ := call
  cases taken <;> simp [accepted, count]

/-- The counters after one more call. -/
theorem Ledger.counted (ledger : Ledger events s) (call : JitSignalEvent × Bool) :
    (s.count call).stats.published =
        UInt64.ofNat ((s.count call).calls.countP fun call => call.2) ∧
      (s.count call).stats.dropped =
        UInt64.ofNat ((s.count call).calls.countP fun call => !call.2) := by
  obtain ⟨item, taken⟩ := call
  have published := ledger.published
  have dropped := ledger.dropped
  cases taken
  · refine ⟨?_, ?_⟩
    · simpa [count] using published
    · simp only [count, List.countP_append, UInt64.ofNat_add]
      rw [← dropped]
      rfl
  · refine ⟨?_, ?_⟩
    · simp only [count, List.countP_append, UInt64.ofNat_add]
      rw [← published]
      rfl
    · simpa [count] using dropped

/-- The bridge begins the next event. -/
theorem Ledger.begun (ledger : Ledger events s) (idle : s.threads.producer = .idle)
    {ev : BookEvent} {rest : List BookEvent} (coming : s.coming = ev :: rest)
    (ring : s.attached = true) :
    Ledger events { s with threads := s.threads.produce (convert ev), coming := rest } := by
  obtain ⟨pending, fifo⟩ := ledger.fifo
  obtain ⟨item, same⟩ := Threads.produce_idle idle (convert ev)
  refine ⟨fifo.produce _, ?_, ledger.published, ledger.dropped, ?_, ?_⟩
  · have order := ledger.order
    rw [idle, coming] at order
    simp only [item]
    exact order
  · intro _
    rw [same]
    exact ledger.attached ring
  · exact fun detached => absurd (ring.symm.trans detached) (by decide)

/-- Without a ring the next event is dropped. -/
theorem Ledger.unpublished (ledger : Ledger events s) (idle : s.threads.producer = .idle)
    {ev : BookEvent} {rest : List BookEvent} (coming : s.coming = ev :: rest)
    (without : s.attached = false) :
    Ledger events ({ s with coming := rest }.count (convert ev, false)) := by
  obtain ⟨none_taken, no_pushes, _⟩ := ledger.detached without
  obtain ⟨published, dropped⟩ := ledger.counted (convert ev, false)
  refine ⟨ledger.fifo, ?_, published, dropped, ?_, ?_⟩
  · have order := ledger.order
    rw [idle, coming] at order
    simp only [count, idle, List.map_append, List.append_assoc]
    exact order
  · exact fun attached => absurd (without.symm.trans attached) (by decide)
  · intro _
    have kept := accepted_count s (convert ev, false)
    rw [none_taken] at kept
    exact ⟨kept, no_pushes, idle⟩

/-- The push of an event goes on, or it returns and is counted. -/
theorem Ledger.pushing (ledger : Ledger events s) (item : JitSignalEvent)
    (busy : s.threads.producer.item = some item) :
    let next := s.threads.produce {}
    Ledger events ((next.pushes.drop s.threads.pushes.length).foldl count
      { s with threads := next }) := by
  obtain ⟨pending, fifo⟩ := ledger.fifo
  have ring : s.attached = true := by
    by_contra without
    have idle := (ledger.detached (by simpa using without)).2.2
    rw [idle] at busy
    cases busy
  intro next
  rcases Threads.produce_busy busy {} with ⟨held, same⟩ | ⟨idle, taken, pushes⟩
  · have none_returned : next.pushes.drop s.threads.pushes.length = [] := by
      rw [same, List.drop_length]
    rw [none_returned]
    refine ⟨fifo.produce _, ?_, ledger.published, ledger.dropped, ?_, ?_⟩
    · have order := ledger.order
      rw [busy] at order
      simp only [List.foldl_nil, next, held]
      exact order
    · intro _
      exact (ledger.attached ring).trans same.symm
    · exact fun detached => absurd (ring.symm.trans detached) (by decide)
  · have returned : next.pushes.drop s.threads.pushes.length = [(item, taken)] := by
      rw [pushes, List.drop_left]
    obtain ⟨published, dropped⟩ := ledger.counted (item, taken)
    rw [returned]
    refine ⟨fifo.produce _, ?_, published, dropped, ?_, ?_⟩
    · have order := ledger.order
      rw [busy] at order
      simp only [List.foldl_cons, List.foldl_nil, count, next, idle, List.map_append,
        List.append_assoc]
      exact order
    · intro _
      rw [List.foldl_cons, List.foldl_nil]
      exact (congrArg (· ++ [(item, taken)]) (ledger.attached ring)).trans pushes.symm
    · exact fun detached => absurd (ring.symm.trans detached) (by decide)

theorem Ledger.bridge (ledger : Ledger events s) : Ledger events s.bridge := by
  unfold JitThreads.bridge
  cases place : s.threads.producer with
  | idle =>
    simp only
    cases coming : s.coming with
    | nil => exact ledger
    | cons ev rest =>
      simp only
      split
      · next ring => exact ledger.begun place coming ring
      · next without => exact ledger.unpublished place coming (by simpa using without)
  | loadedHead item head => exact ledger.pushing item (by rw [place]; rfl)
  | hasRoom item head => exact ledger.pushing item (by rw [place]; rfl)
  | copied item head => exact ledger.pushing item (by rw [place]; rfl)

theorem Ledger.step (ledger : Ledger events s) (turn : Turn) : Ledger events (s.step turn) := by
  cases turn with
  | bridge => exact ledger.bridge
  | consumer =>
    obtain ⟨pending, fifo⟩ := ledger.fifo
    refine ⟨fifo.consume, ?_, ledger.published, ledger.dropped, ?_, ?_⟩
    · simpa [JitThreads.step] using ledger.order
    · simpa [JitThreads.step] using ledger.attached
    · simpa [JitThreads.step, accepted] using ledger.detached

/-- What the ring has taken is what the bridge has counted as published. -/
theorem Ledger.accepted_eq (ledger : Ledger events s) : s.accepted = s.threads.pushed := by
  rw [Threads.pushed_eq]
  cases ring : s.attached with
  | true => rw [accepted, ledger.attached ring]
  | false =>
    obtain ⟨none_taken, no_pushes, _⟩ := ledger.detached ring
    rw [none_taken, no_pushes]
    rfl

theorem count_threads (calls : List (JitSignalEvent × Bool)) (s : JitThreads bits) :
    (calls.foldl count s).threads = s.threads ∧ (calls.foldl count s).attached = s.attached := by
  induction calls generalizing s with
  | nil => exact ⟨rfl, rfl⟩
  | cons call rest ih => exact ih (s.count call)

/-- A step of the bridge is a step of its push, or none. -/
theorem bridge_threads (s : JitThreads bits) :
    (s.bridge.threads = s.threads ∨ ∃ next, s.bridge.threads = s.threads.produce next) ∧
      s.bridge.attached = s.attached := by
  unfold bridge
  split
  · split
    · exact ⟨.inl rfl, rfl⟩
    · split
      · exact ⟨.inr ⟨_, rfl⟩, rfl⟩
      · exact ⟨.inl rfl, rfl⟩
  · obtain ⟨threads, attached⟩ := count_threads
      ((s.threads.produce {}).pushes.drop s.threads.pushes.length)
      { s with threads := s.threads.produce {} }
    exact ⟨.inr ⟨{}, threads⟩, attached⟩

/-- An event is dropped only while all but one slot of the ring are taken. -/
theorem Ledger.full (ledger : Ledger events s) (ring : s.attached = true) {item : JitSignalEvent}
    (dropped : s.bridge.calls = s.calls ++ [(item, false)]) :
    s.accepted.length = s.threads.popped.length + (2 ^ bits - 1) := by
  obtain ⟨pending, fifo⟩ := ledger.fifo
  obtain ⟨threads, attached⟩ := s.bridge_threads
  rw [ledger.bridge.attached (attached.trans ring), ledger.attached ring] at dropped
  have full : pending.length + 1 = 2 ^ bits := by
    rcases threads with same | ⟨next, same⟩
    · rw [same] at dropped
      simp at dropped
    · rw [same] at dropped
      exact fifo.refused dropped
  rw [ledger.accepted_eq, fifo.pushed, List.length_append]
  omega

/-- In whatever order the bridge and the consumer take their steps: every event has been offered
to the ring once, in the order of the merged stream, or is in the bridge's hands or still to
come; what the ring has taken is counted as published and the rest as dropped; the consumer has
been given a first part of what the ring has taken, each event once and in order, and gets all
of it if it goes on alone. With a ring, an event is dropped only while all but one slot hold
events that the consumer has not given back; without one every event is. -/
theorem merged_events_delivered (bits : Nat) (attached : Bool) (events : List BookEvent)
    (turns : List Turn) :
    let s := turns.foldl step (start bits attached events)
    events.map convert = s.calls.map Prod.fst ++
        (s.threads.producer.item.toList ++ s.coming.map convert) ∧
      s.accepted.Sublist (events.map convert) ∧
      s.stats.published = UInt64.ofNat s.accepted.length ∧
      s.stats.dropped = UInt64.ofNat (s.calls.length - s.accepted.length) ∧
      s.threads.popped <+: s.accepted ∧
      (Threads.consume^[4 * 2 ^ bits] s.threads).popped = s.accepted ∧
      (∀ item, s.attached = true → s.bridge.calls = s.calls ++ [(item, false)] →
        s.accepted.length = s.threads.popped.length + (2 ^ bits - 1)) ∧
      (s.attached = false → s.accepted = []) := by
  intro s
  have ledger : Ledger events s :=
    Run.invariant (P := Ledger events) (fun _ turn held => held.step turn) turns
      (start_ledger attached events)
  obtain ⟨pending, fifo⟩ := ledger.fifo
  have count : s.accepted.length = s.calls.countP fun call => call.2 := by
    rw [accepted, List.length_map, List.countP_eq_length_filter]
  have refused := List.length_eq_countP_add_countP (p := fun call : JitSignalEvent × Bool => call.2)
    (l := s.calls)
  have whole : s.accepted.Sublist (s.calls.map Prod.fst) := List.filter_sublist.map Prod.fst
  refine ⟨ledger.order, ?_, ?_, ?_, ?_, ?_, fun item ring dropped => ledger.full ring dropped,
    fun without => (ledger.detached without).1⟩
  · rw [ledger.order]
    exact whole.trans (List.sublist_append_left _ _)
  · rw [count]
    exact ledger.published
  · rw [ledger.dropped, count]
    congr 1
    simp only [Bool.not_eq_true] at refused
    simp only [refused, Nat.add_sub_cancel_left]
    exact List.countP_congr fun call _ => by simp
  · rw [ledger.accepted_eq, fifo.pushed]
    exact List.prefix_append _ _
  · rw [ledger.accepted_eq]
    exact fifo.drains (Nat.mul_le_mul_left 4 fifo.queued.room.le)

end JitThreads

end FeedHandler
