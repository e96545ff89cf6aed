import FeedHandler.Core.SpmcSnapshot
import FeedHandler.Lib.Run

/-! One writer and any number of readers on the ring, their accesses interleaved in any
order. The writer's stores are what the readers rely on, and the readers store nothing. -/
namespace FeedHandler
namespace Spmc

open SharedProgram

variable {W : Type} {width bits : Nat}

section Writer

variable {items : List (Item W width)} {m : Memory W width bits} {item : Item W width}
  {seq : UInt64} {i : Fin (2 ^ bits)}

/-- The ring between two publications, after `n` of them. -/
structure Settled (items : List (Item W width)) (n : Nat) (m : Memory W width bits) : Prop where
  faithful : Faithful items m
  published : m.publishedSequence.toNat = n
  slots : ∀ i, (m.slots i).version = encodeVersion kNeverWrittenSequence false ∨
    ∃ seq : UInt64, seq.toNat < n ∧ (m.slots i).version = encodeVersion seq false

theorem create_settled (items : List (Item W width)) (initial : Item W width) :
    Settled items 0 (Memory.create initial : Memory W width bits) where
  faithful := by
    refine ⟨Nat.zero_le _, fun seq small fresh => ?_⟩
    have ranks := congrArg UInt64.toNat fresh
    have never : (encodeVersion kNeverWrittenSequence false).toNat = 2 * (2 ^ 63 - 1) := by decide
    rw [encodeVersion_toNat (by omega)] at ranks
    simp only [Memory.create, never, Bool.false_eq_true, if_false] at ranks
    omega
  published := rfl
  slots := fun _ => .inl rfl

/-- A store into one slot. -/
theorem Faithful.advances_slot (faithful : Faithful items m) {slot : Slot W width}
    (later : (m.slots i).Later slot)
    (value : ∀ seq : UInt64, seq.toNat ≤ 2 ^ 62 → slotOf bits seq = i →
      slot.version = encodeVersion seq false → items[seq.toNat]? = some slot.value) :
    Advances items m { m with slots := Function.update m.slots i slot } := by
  refine ⟨⟨faithful.published, ?_⟩, ?_⟩
  · intro seq small version
    by_cases here : slotOf bits seq = i
    · simp only [here, Function.update_self] at version ⊢
      exact value seq small here version
    · simp only [Function.update_of_ne here] at version ⊢
      exact faithful.values seq small version
  · intro k
    simp only
    by_cases here : k = i
    · subst here
      rwa [Function.update_self]
    · rw [Function.update_of_ne here]
      exact .refl _

theorem encodeVersion_writing_ne {other : UInt64} (small : seq.toNat < 2 ^ 63)
    (other_small : other.toNat < 2 ^ 63) : encodeVersion seq true ≠ encodeVersion other false := by
  intro same
  have values := congrArg UInt64.toNat same
  rw [encodeVersion_toNat small, encodeVersion_toNat other_small] at values
  simp only [if_true, Bool.false_eq_true, if_false] at values
  omega

theorem encodeVersion_inj {other : UInt64} (small : seq.toNat < 2 ^ 63)
    (other_small : other.toNat < 2 ^ 63) (same : encodeVersion seq false = encodeVersion other false) :
    seq = other := by
  have values := congrArg UInt64.toNat same
  rw [encodeVersion_toNat small, encodeVersion_toNat other_small] at values
  exact UInt64.toNat_inj.mp (by omega)

/-- The slot `i` is being written for `seq`, and the rest is as in `before`. -/
structure Writing (items : List (Item W width)) (before : Memory W width bits) (seq : UInt64)
    (i : Fin (2 ^ bits)) (m : Memory W width bits) : Prop where
  faithful : Faithful items m
  version : (m.slots i).version = encodeVersion seq true
  others : ∀ k, k ≠ i → m.slots k = before.slots k
  published : m.publishedSequence = before.publishedSequence

variable {before : Memory W width bits}

/-- The copy into a slot that is being written concerns nobody. -/
theorem storeWords_guarantees (few : seq.toNat < 2 ^ 62) (js : List (Fin width))
    (writing : Writing items before seq i m)
    (copied : ∀ j, j ∉ js → (m.slots i).value j = item j) :
    (storeWords i item js).Guarantees (Advances items)
      (fun _ m' => Writing items before seq i m' ∧ (m'.slots i).value = item) m := by
  induction js generalizing m with
  | nil => exact ⟨writing, funext fun j => copied j List.not_mem_nil⟩
  | cons j rest ih =>
    have progress : isWriteInProgress (m.slots i).version = true := by
      rw [writing.version, isWriteInProgress_iff, encodeVersion_toNat (by omega), if_pos rfl]
      omega
    have advances : Advances items m (m.setWord i j (item j)) := by
      refine writing.faithful.advances_slot (.inr ⟨rfl, .inl progress⟩) ?_
      intro other small _ version
      exact absurd (writing.version.symm.trans version)
        (encodeVersion_writing_ne (by omega) (by omega))
    refine ⟨advances, ih ⟨advances.1, ?_, ?_, writing.published⟩ ?_⟩
    · simp only [Memory.setWord, Function.update_self]
      exact writing.version
    · intro k other
      simp only [Memory.setWord, Function.update_of_ne other]
      exact writing.others k other
    · intro k outside
      simp only [Memory.setWord, Function.update_self]
      by_cases here : k = j
      · subst here
        exact Function.update_self ..
      · rw [Function.update_of_ne here]
        exact copied k (by simp [here, outside])

/-- A publication is a sequence of stores that readers can rely on. -/
theorem tryPublish_guarantees (few : items.length < 2 ^ 62)
    (item_at : items[seq.toNat]? = some item) (settled : Settled items seq.toNat m) :
    (tryPublish seq item).Guarantees (Advances items)
      (fun next m' => next.toNat = seq.toNat + 1 ∧ Settled items (seq.toNat + 1) m') m := by
  have inside := (List.getElem?_eq_some_iff.mp item_at).1
  have next := next_toNat seq (by omega)
  have behind : rank (m.slots (slotOf bits seq)).version < 2 * seq.toNat + 1 := by
    rcases settled.slots (slotOf bits seq) with fresh | ⟨old, earlier, version⟩
    · rw [fresh, rank_fresh]
      omega
    · rw [version, rank_encode (by omega)]
      simp only [Bool.false_eq_true, if_false]
      omega
  -- the version is taken away before the first word is overwritten
  have opened : Advances items m
      (m.setVersion (slotOf bits seq) (encodeVersion seq true)) := by
    refine settled.faithful.advances_slot (.inl ?_) ?_
    · rw [rank_encode (by omega)]
      exact behind
    · intro other small _ version
      exact absurd version (encodeVersion_writing_ne (by omega) (by omega))
  have writing : Writing items m seq (slotOf bits seq)
      (m.setVersion (slotOf bits seq) (encodeVersion seq true)) := by
    refine ⟨opened.1, ?_, ?_, rfl⟩
    · simp only [Memory.setVersion, Function.update_self]
    · exact fun k other => Function.update_of_ne other _ _
  refine ⟨opened, Prog.Guarantees.bind (storeWords_guarantees (by omega) _ writing
    (fun j outside => absurd (List.mem_finRange j) outside)) ?_⟩
  rintro _ copied ⟨⟨faithful, version, others, published⟩, value⟩
  have closed : Advances items copied
      (copied.setVersion (slotOf bits seq) (encodeVersion seq false)) := by
    refine faithful.advances_slot (.inl ?_) ?_
    · rw [version, rank_encode (by omega), rank_encode (by omega)]
      simp
    · intro other small _ same
      rw [← encodeVersion_inj (by omega) (by omega) same, value]
      exact item_at
  have announced : Advances items
      (copied.setVersion (slotOf bits seq) (encodeVersion seq false))
      ((copied.setVersion (slotOf bits seq) (encodeVersion seq false)).setPublished (seq + 1)) := by
    refine ⟨⟨?_, closed.1.values⟩, fun k => .refl _⟩
    simp only [Memory.setPublished, next]
    omega
  refine ⟨closed, announced, next, announced.1, next, ?_⟩
  intro k
  simp only [Memory.setPublished, Memory.setVersion]
  by_cases here : k = slotOf bits seq
  · subst here
    exact .inr ⟨seq, by omega, by rw [Function.update_self]⟩
  · rw [Function.update_of_ne here, others k here]
    refine (settled.slots k).imp_right ?_
    rintro ⟨old, earlier, kept⟩
    exact ⟨old, by omega, kept⟩

end Writer

/-- A reader between or inside its calls of `try_read_next`, with what the calls so far
have returned and the sequence the cursor was at. -/
structure SpmcReader (W : Type) (width bits : Nat) where
  cursor : SpmcReaderCursor := {}
  out : Item W width
  running : Option (Prog (Memory W width bits) (ReadReturn W width)) := none
  returned : List (UInt64 × ReadReturn W width) := []

/-- The writer has `pending` items still to publish. -/
structure SpmcThreads (ι W : Type) (width bits : Nat) where
  memory : Memory W width bits
  nextSequence : UInt64 := 0
  pending : List (Item W width)
  writing : Option (Prog (Memory W width bits) UInt64) := none
  readers : ι → SpmcReader W width bits

/-- The thread that moves: the writer begins its next call, makes one access or returns, or
a reader does so. -/
inductive SpmcMove (ι : Type) where
  | writer
  | call (r : ι) (maxRetries : UInt32)
  | reader (r : ι)

namespace SpmcReader

def call (r : SpmcReader W width bits) (maxRetries : UInt32) : SpmcReader W width bits :=
  match r.running with
  | none => { r with running := some (tryReadNext r.cursor r.out maxRetries) }
  | some _ => r

def step (r : SpmcReader W width bits) (m : Memory W width bits) :
    SpmcReader W width bits × Memory W width bits :=
  match r.running with
  | none => (r, m)
  | some (.done answer) =>
    ({ r with
        cursor := answer.2.1
        out := answer.2.2
        running := none
        returned := r.returned ++ [(r.cursor.nextSequence, answer)] }, m)
  | some p => ({ r with running := some (p.step m).1 }, (p.step m).2)

/-- The sequences of the successful reads. -/
def successes (r : SpmcReader W width bits) : List Nat :=
  (r.returned.filter fun entry => entry.2.1.status = .success).map fun entry => entry.1.toNat

end SpmcReader

namespace SpmcThreads

variable {ι : Type} [DecidableEq ι]

/-- A fresh ring, whose readers may start at any sequence. -/
def create (initial : Item W width) (items : List (Item W width)) (cursors : ι → SpmcReaderCursor)
    (outs : ι → Item W width) : SpmcThreads ι W width bits :=
  { memory := .create initial
    pending := items
    readers := fun r => { cursor := cursors r, out := outs r } }

def stepWriter (s : SpmcThreads ι W width bits) : SpmcThreads ι W width bits :=
  match s.writing with
  | none =>
    match s.pending with
    | [] => s
    | item :: rest => { s with pending := rest, writing := some (tryPublish s.nextSequence item) }
  | some (.done next) => { s with nextSequence := next, writing := none }
  | some p => { s with memory := (p.step s.memory).2, writing := some (p.step s.memory).1 }

def step (s : SpmcThreads ι W width bits) : SpmcMove ι → SpmcThreads ι W width bits
  | .writer => s.stepWriter
  | .call r maxRetries =>
    { s with readers := Function.update s.readers r ((s.readers r).call maxRetries) }
  | .reader r =>
    let moved := (s.readers r).step s.memory
    { s with memory := moved.2, readers := Function.update s.readers r moved.1 }

end SpmcThreads

variable {items : List (Item W width)} {m m' : Memory W width bits}

/-- The writer has published `n` items and is between two calls. -/
structure WriterIdle (items : List (Item W width)) (n : Nat) (seq : UInt64)
    (pending : List (Item W width)) (m : Memory W width bits) : Prop where
  next : seq.toNat = n
  pending : pending = items.drop n
  settled : Settled items n m

/-- The writer is in the call that publishes item `n`. -/
structure WriterBusy (items : List (Item W width)) (n : Nat) (pending : List (Item W width))
    (p : Prog (Memory W width bits) UInt64) (m : Memory W width bits) : Prop where
  pending : pending = items.drop (n + 1)
  guaranteed : p.Guarantees (Advances items)
    (fun next m' => next.toNat = n + 1 ∧ Settled items (n + 1) m') m

/-- What the calls of a reader have returned, and what its running call will return. -/
structure ReaderSafe (items : List (Item W width)) (m : Memory W width bits)
    (r : SpmcReader W width bits) : Prop where
  next_le : r.cursor.nextSequence.toNat ≤ 2 ^ 62
  observed_le : r.cursor.observedPublishedSequence.toNat ≤ 2 ^ 62
  running : ∀ p, r.running = some p →
    p.Ensures (Advances items) (fun answer _ => ReadPost items r.cursor answer) m
  items : ∀ entry ∈ r.returned, entry.2.1.status = .success →
    items[entry.1.toNat]? = some entry.2.2.2
  ordered : r.successes.Pairwise (· < ·)
  below : ∀ q ∈ r.successes, q < r.cursor.nextSequence.toNat

theorem ReaderSafe.stable {r : SpmcReader W width bits} (safe : ReaderSafe items m r)
    (moved : Advances items m m') : ReaderSafe items m' r :=
  ⟨safe.next_le, safe.observed_le,
    fun p runs => (safe.running p runs).stable advances_interference moved,
    safe.items, safe.ordered, safe.below⟩

theorem ReaderSafe.call {r : SpmcReader W width bits} (few : items.length < 2 ^ 62)
    (safe : ReaderSafe items m r) (maxRetries : UInt32) :
    ReaderSafe items m (r.call maxRetries) := by
  simp only [SpmcReader.call]
  split
  · refine ⟨safe.next_le, safe.observed_le, ?_, safe.items, safe.ordered, safe.below⟩
    intro p runs
    cases runs
    exact tryReadNext_ensures few safe.next_le safe.observed_le
  · exact safe

/-- A reader's step leaves the memory alone and logs only what the ring has published. -/
theorem ReaderSafe.step {r : SpmcReader W width bits} (faithful : Faithful items m)
    (safe : ReaderSafe items m r) :
    (r.step m).2 = m ∧ ReaderSafe items m (r.step m).1 := by
  simp only [SpmcReader.step]
  split
  · exact ⟨rfl, safe⟩
  · next answer runs =>
    have post : ReadPost items r.cursor answer := safe.running _ runs m faithful.advances
    refine ⟨rfl, post.next_le, post.observed_le, ?_, ?_, ?_, ?_⟩
    · exact fun p runs => absurd runs (by simp)
    · intro entry member
      rcases List.mem_append.mp member with old | new
      · exact safe.items entry old
      · rw [List.mem_singleton.mp new]
        exact fun success => (post.item success).1
    · simp only [SpmcReader.successes, List.filter_append, List.map_append]
      refine List.pairwise_append.mpr ⟨safe.ordered, ?_, ?_⟩
      · by_cases success : answer.1.status = .success <;> simp [success]
      · intro q old last new
        have below := safe.below q old
        by_cases success : answer.1.status = .success
        · simp only [List.filter_cons, success, decide_true, if_true, List.filter_nil,
            List.map_cons, List.map_nil, List.mem_singleton] at new
          omega
        · simp [success] at new
    · intro q member
      simp only [SpmcReader.successes, List.filter_append, List.map_append,
        List.mem_append] at member
      rcases member with old | new
      · exact (safe.below q old).trans_le post.forward
      · by_cases success : answer.1.status = .success
        · simp only [List.filter_cons, success, decide_true, if_true, List.filter_nil,
            List.map_cons, List.map_nil, List.mem_singleton] at new
          rw [new]
          exact (post.item success).2
        · simp [success] at new
  · next p notDone runs =>
    obtain ⟨same, ensured⟩ := (safe.running _ runs).step faithful.advances
    refine ⟨same, safe.next_le, safe.observed_le, ?_, safe.items, safe.ordered, safe.below⟩
    intro q again
    cases again
    exact ensured

/-- What holds between any two steps of the threads. -/
structure ThreadsSafe {ι : Type} (items : List (Item W width)) (s : SpmcThreads ι W width bits) :
    Prop where
  faithful : Faithful items s.memory
  idle : s.writing = none → ∃ n, WriterIdle items n s.nextSequence s.pending s.memory
  busy : ∀ p, s.writing = some p → ∃ n, WriterBusy items n s.pending p s.memory
  readers : ∀ r, ReaderSafe items s.memory (s.readers r)

variable {ι : Type} {s : SpmcThreads ι W width bits}

theorem create_safe (initial : Item W width) (cursors : ι → SpmcReaderCursor)
    (outs : ι → Item W width)
    (positions : ∀ r, (cursors r).nextSequence.toNat ≤ 2 ^ 62 ∧
      (cursors r).observedPublishedSequence.toNat ≤ 2 ^ 62) :
    ThreadsSafe items (SpmcThreads.create initial items cursors outs :
      SpmcThreads ι W width bits) where
  faithful := (create_settled items initial).faithful
  idle := fun _ => ⟨0, rfl, rfl, create_settled items initial⟩
  busy := fun _ runs => absurd runs (by simp [SpmcThreads.create])
  readers := fun r =>
    ⟨(positions r).1, (positions r).2, fun _ runs => absurd runs (by simp [SpmcThreads.create]),
      fun _ member => absurd member List.not_mem_nil, .nil,
      fun _ member => absurd member List.not_mem_nil⟩

theorem ThreadsSafe.stepWriter (few : items.length < 2 ^ 62) (safe : ThreadsSafe items s) :
    ThreadsSafe items s.stepWriter := by
  simp only [SpmcThreads.stepWriter]
  split
  · next resting =>
    obtain ⟨n, next, pending, settled⟩ := safe.idle resting
    split
    · exact safe
    · next item rest remains =>
      rw [pending] at remains
      have item_at : items[n]? = some item := by
        rw [← List.head?_drop, remains]
        rfl
      have later : rest = items.drop (n + 1) := by
        rw [← List.tail_drop, remains]
        rfl
      subst next
      refine ⟨safe.faithful, fun none => by simp at none, ?_, safe.readers⟩
      intro p runs
      cases runs
      exact ⟨_, later, tryPublish_guarantees few item_at settled⟩
  · next last runs =>
    obtain ⟨n, pending, next, settled⟩ := safe.busy _ runs
    exact ⟨safe.faithful, fun _ => ⟨n + 1, next, pending, settled⟩,
      fun p again => by simp at again, safe.readers⟩
  · next p notDone runs =>
    obtain ⟨n, pending, guaranteed⟩ := safe.busy _ runs
    obtain ⟨moved, rest⟩ := guaranteed.step safe.faithful.advances
    refine ⟨moved.1, fun none => by simp at none, ?_, fun r => (safe.readers r).stable moved⟩
    intro q again
    cases again
    exact ⟨n, pending, rest⟩

theorem ThreadsSafe.step [DecidableEq ι] (few : items.length < 2 ^ 62) (safe : ThreadsSafe items s)
    (move : SpmcMove ι) : ThreadsSafe items (s.step move) := by
  cases move with
  | writer => exact safe.stepWriter few
  | call r maxRetries =>
    refine ⟨safe.faithful, safe.idle, safe.busy, fun other => ?_⟩
    simp only [SpmcThreads.step]
    by_cases here : other = r
    · subst here
      rw [Function.update_self]
      exact (safe.readers other).call few maxRetries
    · rw [Function.update_of_ne here]
      exact safe.readers other
  | reader r =>
    obtain ⟨same, moved⟩ := (safe.readers r).step safe.faithful
    simp only [SpmcThreads.step]
    rw [same]
    refine ⟨safe.faithful, safe.idle, safe.busy, fun other => ?_⟩
    simp only
    by_cases here : other = r
    · subst here
      rwa [Function.update_self]
    · rw [Function.update_of_ne here]
      exact safe.readers other

/-- In every interleaving, a successful read from sequence `q` returns the item of the
publication with index `q`, and each reader's successes grow in sequence. -/
theorem reads_untorn [DecidableEq ι] (initial : Item W width) (cursors : ι → SpmcReaderCursor)
    (outs : ι → Item W width) (moves : List (SpmcMove ι)) (few : items.length < 2 ^ 62)
    (positions : ∀ r, (cursors r).nextSequence.toNat ≤ 2 ^ 62 ∧
      (cursors r).observedPublishedSequence.toNat ≤ 2 ^ 62) (r : ι) :
    let after := moves.foldl SpmcThreads.step
      (SpmcThreads.create initial items cursors outs : SpmcThreads ι W width bits)
    (∀ entry ∈ (after.readers r).returned, entry.2.1.status = .success →
      items[entry.1.toNat]? = some entry.2.2.2) ∧
    (after.readers r).successes.Pairwise (· < ·) := by
  have safe := Run.invariant (P := fun s : SpmcThreads ι W width bits => ThreadsSafe items s)
    (fun s move safe => safe.step few move) moves (create_safe initial cursors outs positions)
  exact ⟨(safe.readers r).items, (safe.readers r).ordered⟩

/-- A publication of two words, and a read that begins in the middle of it. -/
def overlappingRead : List (SpmcMove Unit) :=
  List.replicate 3 .writer ++ [.call () 4, .reader ()] ++ List.replicate 4 .writer ++
    [.reader (), .call () 4] ++ List.replicate 6 (.reader ())

theorem reads_untorn_overlapping :
    let after := overlappingRead.foldl SpmcThreads.step
      (SpmcThreads.create (fun _ => 0) [fun i => 7 + i.val] (fun _ => {}) (fun _ _ => 0) :
        SpmcThreads Unit Nat 2 1)
    (after.readers ()).successes = [0] ∧
    (∀ entry ∈ (after.readers ()).returned, entry.2.1.status = .success →
      [fun i : Fin 2 => 7 + i.val][entry.1.toNat]? = some entry.2.2.2) ∧
    (after.readers ()).successes.Pairwise (· < ·) :=
  ⟨by decide +kernel, reads_untorn (fun _ => 0) (fun _ => {}) (fun _ _ => 0) overlappingRead
    (by decide) (fun _ => by decide) ()⟩

end Spmc
end FeedHandler
