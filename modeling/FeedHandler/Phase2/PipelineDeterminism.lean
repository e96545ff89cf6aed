import FeedHandler.Phase2.PipelineArrival
import FeedHandler.Phase2.VenueFeed

/-! Arrival-order independence. When every event of every venue has arrived, each
venue has published its feed, whatever the order and however often; what is
merged then depends on the feeds alone. -/
namespace FeedHandler.Pipeline

variable {p : Pipeline} {ev : BookEvent} {v : Venue} {gapWindow : Nat} {l l' : Lane}
  {past : List BookEvent}

/-- Nothing below the expected sequence was skipped. -/
def Lane.Contiguous (l : Lane) : Prop :=
  l.queue.map BookEvent.seq = List.range' 1 (l.tracker.nextExpected - 1)

theorem Lane.Contiguous.step (contiguous : l.Contiguous) (inv : l.Invariant gapWindow v)
    (room : ev.seq + 1 < wordSize)
    (near : ev.seq ≤ l.tracker.nextExpected + l.tracker.gapWindow) (step : Lane.Step ev l l') :
    l'.Contiguous := by
  have positive := inv.windowed.positive
  cases step with
  | old => exact contiguous
  | tooLarge far => omega
  | buffered => exact contiguous
  | inOrder same =>
    have count := (inv.windowed.released_spec (same ▸ room)).1
    have total : l.tracker.advanced.nextExpected - 1 =
        l.tracker.nextExpected - 1 + (l.tracker.released.2.1 + 1) := by
      change l.tracker.released.1 - 1 = _
      omega
    have start : ev.seq = 1 + (l.tracker.nextExpected - 1) := by omega
    simp only [Lane.Contiguous]
    rw [List.map_append, List.map_cons, contiguous, inv.released_events same room,
      ← List.range'_succ, total, start]
    exact List.range'_append_1

/-- All three invariants of a run without a forced advance. -/
structure Sequenced (gapWindow : Nat) (past : List BookEvent) (p : Pipeline) : Prop where
  buffers : Invariant gapWindow p
  arrivals : Arrived past p
  contiguous : ∀ v, (p.lane v).Contiguous

theorem create_sequenced {capacity : Nat} (small : gapWindow + 1 < wordSize) :
    Sequenced gapWindow [] (create gapWindow capacity) where
  buffers := create_invariant small
  arrivals := create_arrived gapWindow capacity
  contiguous := fun _ => rfl

theorem Sequenced.onEvent (seq : Sequenced gapWindow past p) (room : ev.seq + 1 < wordSize)
    (within : p.WithinWindow ev) (repeats : (p.lane ev.venue).Repeats ev) :
    Sequenced gapWindow (past ++ [ev]) (p.onEvent ev) where
  buffers := (seq.buffers.onEvent (Lane.LastBeyondWindow.of_lt room)).1
  arrivals := seq.arrivals.onEvent room within.near repeats
  contiguous := by
    have inv := (seq.buffers.record ev).lanes
    intro v
    by_cases same : v = ev.venue
    · subst same
      have start : ((p.record ev).lane ev.venue).Contiguous := seq.contiguous ev.venue
      exact start.step (inv ev.venue) room within.near
        (seq.arrivals.onEvent_lane room within.near repeats)
    · rw [seq.arrivals.onEvent_frame room within.near repeats same]
      exact seq.contiguous v

/-- Once the first `m` sequences of a venue have arrived and no others, they are
published and the next one is expected. -/
theorem Sequenced.next_eq (seq : Sequenced gapWindow past p) {m : Nat}
    (arrived : ∀ k, (∃ e ∈ past, e.venue = v ∧ e.seq = k) ↔ 1 ≤ k ∧ k ≤ m) :
    (p.tracker v).nextExpected = m + 1 := by
  have inv := seq.buffers.lanes v
  have positive : 0 < (p.tracker v).nextExpected := inv.windowed.positive
  apply Nat.le_antisymm
  · by_contra beyond
    have published : (p.tracker v).nextExpected - 1 ∈ (p.published v).map BookEvent.seq := by
      rw [show (p.published v).map BookEvent.seq = _ from seq.contiguous v, List.mem_range'_1]
      change 1 ≤ (p.tracker v).nextExpected - 1 ∧ _ < 1 + ((p.tracker v).nextExpected - 1)
      omega
    obtain ⟨e, member, last⟩ := List.mem_map.mp published
    obtain ⟨venue, first⟩ := (seq.arrivals.lanes v).published e member
    have := (arrived e.seq).mp ⟨e, first.mem, venue, rfl⟩
    omega
  · by_contra short
    obtain ⟨e, member, venue, here⟩ := (arrived (p.tracker v).nextExpected).mpr ⟨positive, by omega⟩
    have held := (seq.arrivals.lanes v).held e member venue here.symm.le
    obtain ⟨x, found⟩ := Option.isSome_iff_exists.mp held
    have ahead := inv.windowed.ahead e.seq ((inv.keys _).mp (OrderedMap.mem_keys.mpr ⟨x, found⟩))
    have same : (p.lane v).tracker.nextExpected = e.seq := here.symm
    omega

/-- An arrival from the feed of its venue repeats buffered events only identically. -/
theorem Sequenced.repeats (seq : Sequenced gapWindow past p) {feeds : Venue → List BookEvent}
    (isFeed : ∀ v, IsFeed v (feeds v)) (copies : ∀ e ∈ past, e ∈ feeds e.venue)
    (copy : ev ∈ feeds ev.venue) : (p.lane ev.venue).Repeats ev := by
  intro e found
  obtain ⟨venue, same⟩ := (seq.arrivals.tidy ev.venue).labels _ e found
  have arrived := copies e ((seq.arrivals.lanes ev.venue).buffered _ e found).mem
  exact (isFeed ev.venue).seq_inj (venue ▸ arrived) copy same

theorem run_sequenced {capacity : Nat} {feeds : Venue → List BookEvent}
    {arrivals : List BookEvent} (small : gapWindow < 2 ^ 64 - 64)
    (isFeed : ∀ v, IsFeed v (feeds v)) (short : ∀ v, (feeds v).length < 2 ^ 64 - 1)
    (copies : ∀ e ∈ arrivals, e ∈ feeds e.venue)
    (within : Run.Along onEvent WithinWindow (create gapWindow capacity) arrivals) :
    Sequenced gapWindow arrivals (run gapWindow capacity arrivals) := by
  have letters : Run.Along onEvent (fun _ ev => ev ∈ feeds ev.venue)
      (create gapWindow capacity) arrivals := Run.along_of_forall _ _ copies
  have run := (within.and letters).history
    (P := fun past p => (∀ e ∈ past, e ∈ feeds e.venue) ∧ Sequenced gapWindow past p) ?_ []
    ⟨by simp, create_sequenced (by unfold wordSize; omega)⟩
  · exact run.2
  · rintro past p ev ⟨before, seq⟩ ⟨near, copy⟩
    have bound := (isFeed ev.venue).seq_bounds copy
    have limit := short ev.venue
    refine ⟨?_, seq.onEvent (by unfold wordSize; omega) near (seq.repeats isFeed before copy)⟩
    intro e member
    rcases List.mem_append.mp member with old | new
    · exact before e old
    · exact List.mem_singleton.mp new ▸ copy

/-- A complete run has published every feed. -/
theorem Sequenced.published_eq (seq : Sequenced gapWindow past p)
    {feeds : Venue → List BookEvent} (isFeed : ∀ v, IsFeed v (feeds v))
    (copies : ∀ e ∈ past, e ∈ feeds e.venue) (complete : ∀ v, ∀ e ∈ feeds v, e ∈ past)
    (v : Venue) : p.published v = feeds v := by
  have next : (p.tracker v).nextExpected = (feeds v).length + 1 := by
    apply seq.next_eq
    intro k
    constructor
    · rintro ⟨e, member, venue, rfl⟩
      exact (isFeed v).seq_bounds (venue ▸ copies e member)
    · rintro ⟨low, high⟩
      obtain ⟨e, member, here⟩ := (isFeed v).exists_seq low high
      exact ⟨e, complete v e member, (isFeed v).venue e member, here⟩
  apply (isFeed v).eq_of_seqs
  · intro e member
    obtain ⟨venue, first⟩ := (seq.arrivals.lanes v).published e member
    exact venue ▸ copies e first.mem
  · have seqs : (p.published v).map BookEvent.seq = _ := seq.contiguous v
    rw [seqs, (isFeed v).seqs]
    exact congrArg (fun n => List.range' 1 (n - 1)) next

/-- Feeding each venue in order, with the venues interleaved in any way, never
leaves a gap. -/
theorem inOrder_within (capacity : Nat) {feeds : Venue → List BookEvent}
    (reference : List BookEvent) (small : gapWindow < 2 ^ 64 - 64)
    (isFeed : ∀ v, IsFeed v (feeds v)) (short : ∀ v, (feeds v).length < 2 ^ 64 - 1)
    (ordered : ∀ v, reference.filter (fun e => e.venue = v) <+: feeds v) :
    Run.Along onEvent WithinWindow (create gapWindow capacity) reference := by
  induction reference using List.reverseRecOn with
  | nil => trivial
  | append_singleton past ev ih =>
    have split : ∀ v, past.filter (fun e => e.venue = v) <+: feeds v := by
      intro v
      have whole := ordered v
      rw [List.filter_append] at whole
      exact (List.prefix_append _ _).trans whole
    have along := ih split
    have copies : ∀ e ∈ past, e ∈ feeds e.venue := by
      intro e member
      exact (split e.venue).subset (List.mem_filter.mpr ⟨member, by simp⟩)
    have seq := run_sequenced small isFeed short copies along
    have whole : past.filter (fun e => e.venue = ev.venue) ++ [ev] <+: feeds ev.venue := by
      simpa using ordered ev.venue
    have mine := (isFeed ev.venue).initial (split ev.venue)
    have next := seq.next_eq (v := ev.venue) (fun k => mine.mem_seqs_filter)
    have here := ((isFeed ev.venue).initial whole).last_seq
    refine (Run.along_append _ _ _).mpr ⟨along, withinWindow_iff.mpr ?_, trivial⟩
    change ev.seq ≤ ((run gapWindow capacity past).tracker ev.venue).nextExpected + _
    omega

/-- Arrival-order independence: any complete arrival order, with repeats and with
the venues interleaved in any way, delivers what the feeds in order deliver. -/
theorem arrival_order_independent (gapWindow capacity : Nat) (feeds : Venue → List BookEvent)
    (arrivals reference : List BookEvent) (small : gapWindow < 2 ^ 64 - 64)
    (isFeed : ∀ v, IsFeed v (feeds v)) (short : ∀ v, (feeds v).length < 2 ^ 64 - 1)
    (copies : ∀ e ∈ arrivals, e ∈ feeds e.venue)
    (complete : ∀ v, ∀ e ∈ feeds v, e ∈ arrivals)
    (within : Run.Along onEvent WithinWindow (create gapWindow capacity) arrivals)
    (ordered : ∀ v, reference.filter (fun e => e.venue = v) = feeds v) :
    let p := (run gapWindow capacity arrivals).finalize
    let q := (run gapWindow capacity reference).finalize
    p.2 = q.2 ∧ p.1.stats.mergedCrc = q.1.stats.mergedCrc ∧
      p.1.stats.accepted = q.1.stats.accepted ∧ p.1.stats.recoveryReinjected = 0 := by
  have inFeed : ∀ e ∈ reference, e ∈ feeds e.venue := by
    intro e member
    rw [← ordered e.venue]
    exact List.mem_filter.mpr ⟨member, by simp⟩
  have fed : ∀ v, ∀ e ∈ feeds v, e ∈ reference := by
    intro v e member
    rw [← ordered v] at member
    exact (List.mem_filter.mp member).1
  have seq := run_sequenced small isFeed short copies within
  have seqRef := run_sequenced small isFeed short inFeed
    (inOrder_within capacity reference small isFeed short
      (fun v => ordered v ▸ List.prefix_refl _))
  have queues : ∀ v, (run gapWindow capacity arrivals).published v =
      (run gapWindow capacity reference).published v := fun v =>
    (seq.published_eq isFeed copies complete v).trans
      (seqRef.published_eq isFeed inFeed fed v).symm
  have merged := DeterministicMerger.drainAll_congr (funext queues)
  refine ⟨merged, ?_, ?_, seq.arrivals.reinjected⟩
  · simp only [finalize, seq.arrivals.unmerged, seqRef.arrivals.unmerged, merged]
  · simp only [finalize, seq.arrivals.accepted, seqRef.arrivals.accepted, publishedTotal, queues]

/-- Three events of one venue and one of another. -/
def twoFeeds : Venue → List BookEvent
  | .nasdaq => [{ sequence := 1 }, { sequence := 2 }, { sequence := 3 }]
  | .iex => [{ venue := .iex, sequence := 1 }]
  | _ => []

/-- The first of two feeds shuffled, with repeats, around the second. -/
theorem arrival_order_independent_shuffled :
    let arrivals : List BookEvent := [{ sequence := 3 }, { sequence := 2 }, { sequence := 3 },
      { venue := .iex, sequence := 1 }, { sequence := 1 }, { sequence := 2 }]
    let p := (run 8 4 arrivals).finalize
    let q := (run 8 4 (twoFeeds .nasdaq ++ twoFeeds .iex)).finalize
    p.2 = q.2 ∧ p.1.stats.mergedCrc = q.1.stats.mergedCrc ∧
      p.1.stats.accepted = q.1.stats.accepted ∧ p.1.stats.recoveryReinjected = 0 :=
  arrival_order_independent 8 4 twoFeeds _ _ (by decide)
    (fun v => by cases v <;> exact ⟨by decide, by decide⟩) (fun v => by cases v <;> decide)
    (by decide) (fun v => by cases v <;> decide)
    ⟨by decide, by decide, by decide, by decide, by decide, by decide, trivial⟩
    (fun v => by cases v <;> decide)

end FeedHandler.Pipeline
