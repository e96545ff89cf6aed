import FeedHandler.Lib.Run
import FeedHandler.Phase2.PipelineStep

/-! The buffer invariant of the pipeline: tag ring and pending map agree, and each
venue publishes strictly increasing sequences. It survives duplicates, gaps,
forced advances and reinjection, as long as the tracker never has to step past
the last 64-bit sequence. -/
namespace FeedHandler.Pipeline

variable {p : Pipeline} {ev : BookEvent} {v : Venue} {gapWindow : Nat} {l l' : Lane}

structure Lane.Invariant (gapWindow : Nat) (v : Venue) (l : Lane) : Prop where
  width : l.tracker.gapWindow = gapWindow
  windowed : l.tracker.Windowed
  keys : ∀ k, k ∈ l.pending.keys ↔ l.tracker.Buffered k
  labels : ∀ k e, l.pending.find? k = some e → e.venue = v ∧ e.seq = k
  stored : ∀ e ∈ l.store, e.venue = v
  behind : ∀ e ∈ l.queue, e.seq < l.tracker.nextExpected
  increasing : (l.queue.map BookEvent.seq).Pairwise (· < ·)

theorem Lane.Invariant.tidy (inv : l.Invariant gapWindow v) : l.Tidy v :=
  ⟨inv.windowed.toUnwrapped, inv.labels, inv.stored⟩

/-- The last 64-bit sequence arrives only beyond the gap window, where it is
dropped; inside the window the tracker would have to step past it. -/
def Lane.LastBeyondWindow (l : Lane) (ev : BookEvent) : Prop :=
  ev.seq + 1 = wordSize → l.tracker.nextExpected + l.tracker.gapWindow < ev.seq

theorem Lane.LastBeyondWindow.room (last : l.LastBeyondWindow ev) : l.RoomFor ev := by
  intro same
  have word := ev.seq_lt
  by_contra full
  have := last (by omega)
  omega

theorem Lane.LastBeyondWindow.of_lt (below : ev.seq + 1 < wordSize) : l.LastBeyondWindow ev :=
  fun last => by omega

/-- Where map and ring agree, the release loop finds every released sequence. -/
theorem Lane.Invariant.released_seqs (inv : l.Invariant gapWindow v) (seq count : Nat)
    (present : ∀ k, seq ≤ k → k < seq + count → l.tracker.Buffered k) :
    ((List.range' seq count).filterMap l.pending.find?).map BookEvent.seq =
      List.range' seq count := by
  induction count generalizing seq with
  | zero => rfl
  | succ count ih =>
    have here := (inv.keys seq).mpr (present seq (Nat.le_refl _) (by omega))
    obtain ⟨e, found⟩ := OrderedMap.mem_keys.mp here
    have rest := ih (seq + 1) (fun k low high => present k (by omega) (by omega))
    rw [List.range'_succ, List.filterMap_cons, found]
    simp only [List.map_cons, rest, (inv.labels seq e found).2]

theorem Lane.Invariant.released_events (inv : l.Invariant gapWindow v)
    (same : ev.seq = l.tracker.nextExpected) (room : ev.seq + 1 < wordSize) :
    ((List.range' (ev.seq + 1) l.tracker.released.2.1).filterMap l.pending.find?).map
        BookEvent.seq = List.range' (ev.seq + 1) l.tracker.released.2.1 := by
  obtain ⟨count, between, _⟩ := inv.windowed.released_spec (same ▸ room)
  exact inv.released_seqs _ _ (fun k low high => between k (by omega) (by omega))

/-- The window test of the map: nothing buffered survives a forced advance. -/
theorem Lane.Invariant.evicted (inv : l.Invariant gapWindow v)
    (far : l.tracker.nextExpected + l.tracker.gapWindow < ev.seq) (k : Nat) :
    (l.pending.eraseBelow ev.seq).find? k = none := by
  rw [OrderedMap.find?_eraseBelow]
  split
  · rfl
  · next high =>
    rw [OrderedMap.find?_eq_none, inv.keys]
    intro held
    have := inv.windowed.within k held
    omega

theorem Lane.Invariant.tooLarge (inv : l.Invariant gapWindow v)
    (far : l.tracker.nextExpected + l.tracker.gapWindow < ev.seq) :
    Lane.Invariant gapWindow v
      ⟨l.tracker.forceAdvance ev.seq, l.pending.eraseBelow ev.seq, l.queue,
        keepRecent (l.tracker.forceAdvance ev.seq).nextExpected l.store⟩ := by
  obtain ⟨next, width, _, empty⟩ := inv.windowed.forceAdvance_spec far
  refine ⟨width.trans inv.width, inv.windowed.forceAdvance far ev.seq_lt, ?_, ?_, ?_, ?_,
    inv.increasing⟩
  · intro k
    rw [OrderedMap.mem_keys]
    simp only [inv.evicted far k, reduceCtorEq, exists_false, false_iff]
    exact empty k
  · intro k e found
    rw [inv.evicted far k] at found
    contradiction
  · intro e member
    exact inv.stored e ((keepRecent_suffix _ _).mem member)
  · intro e member
    have := inv.behind e member
    simp only [next]
    omega

theorem Lane.Invariant.buffered (inv : l.Invariant gapWindow v) (venue : ev.venue = v)
    (ahead : l.tracker.nextExpected < ev.seq)
    (near : ev.seq ≤ l.tracker.nextExpected + l.tracker.gapWindow)
    (room : ev.seq + 1 < wordSize) :
    Lane.Invariant gapWindow v
      ⟨l.tracker.marked ev.seq, l.pending.insert ev.seq ev, l.queue, l.store⟩ := by
  refine ⟨inv.width, inv.windowed.marked ahead near room, ?_, ?_, inv.stored, inv.behind,
    inv.increasing⟩
  · intro k
    simp only
    rw [inv.windowed.buffered_marked ahead near k, ← inv.keys]
    simp only [OrderedMap.mem_keys, OrderedMap.find?_insert]
    by_cases here : k = ev.seq <;> simp [here]
  · exact labels_insert inv.labels venue

theorem Lane.Invariant.inOrder (inv : l.Invariant gapWindow v)
    (same : ev.seq = l.tracker.nextExpected) (room : ev.seq + 1 < wordSize)
    {pending : OrderedMap Nat BookEvent} (remaining : ∀ k, pending.find? k =
      if ev.seq < k ∧ k < l.tracker.released.1 then none else l.pending.find? k) :
    Lane.Invariant gapWindow v
      ⟨l.tracker.advanced, pending,
        l.queue ++ ev ::
          (List.range' (ev.seq + 1) l.tracker.released.2.1).filterMap l.pending.find?,
        keepRecent l.tracker.released.1 l.store⟩ := by
  have roomNext : l.tracker.nextExpected + 1 < wordSize := same ▸ room
  obtain ⟨count, _, held, _, _⟩ := inv.windowed.released_spec roomNext
  have seqs := inv.released_events same room
  refine ⟨inv.width, inv.windowed.advanced roomNext, ?_, ?_, ?_, ?_, ?_⟩
  · intro k
    have heldAfter : l.tracker.advanced.Buffered k ↔
        l.tracker.Buffered k ∧ l.tracker.released.1 ≤ k := held k
    rw [heldAfter, OrderedMap.mem_keys, remaining k, ← inv.keys, OrderedMap.mem_keys]
    constructor
    · rintro ⟨e, found⟩
      split at found
      · contradiction
      · next outside =>
        have := (inv.windowed.ahead k ((inv.keys k).mp (OrderedMap.mem_keys.mpr ⟨e, found⟩))).1
        exact ⟨⟨e, found⟩, by omega⟩
    · rintro ⟨⟨e, found⟩, bound⟩
      exact ⟨e, by rw [if_neg (by omega)]; exact found⟩
  · exact labels_released inv.labels remaining
  · intro e member
    exact inv.stored e ((keepRecent_suffix _ _).mem member)
  · intro e member
    change e.seq < l.tracker.released.1
    rcases List.mem_append.mp member with old | new
    · have := inv.behind e old
      omega
    · rcases List.mem_cons.mp new with rfl | buffered
      · omega
      · have inRange : e.seq ∈ List.range' (ev.seq + 1) l.tracker.released.2.1 :=
          seqs ▸ List.mem_map_of_mem buffered
        have := List.mem_range'_1.mp inRange
        omega
  · rw [List.map_append, List.map_cons, seqs, ← List.range'_succ]
    refine List.pairwise_append.mpr ⟨inv.increasing, List.pairwise_lt_range', ?_⟩
    intro a old b new
    obtain ⟨e, member, rfl⟩ := List.mem_map.mp old
    have := inv.behind e member
    have := (List.mem_range'_1.mp new).1
    omega

/-- Step lemma of the lane invariant, one case per thing an event can do. -/
theorem Lane.Invariant.step (inv : l.Invariant gapWindow v) (venue : ev.venue = v)
    (last : l.LastBeyondWindow ev) (step : Lane.Step ev l l') : l'.Invariant gapWindow v := by
  have word := ev.seq_lt
  cases step with
  | old => exact inv
  | tooLarge far => exact inv.tooLarge far
  | buffered ahead near =>
    apply inv.buffered venue ahead near
    by_contra full
    have := last (by omega)
    omega
  | inOrder same remaining => exact inv.inOrder same (last.room same) remaining

structure Invariant (gapWindow : Nat) (p : Pipeline) : Prop where
  lanes : ∀ v, (p.lane v).Invariant gapWindow v
  recovered : ∀ r ∈ p.recoverySim.pendingRecovered,
    r.seq ≤ (p.tracker r.venue).nextExpected + gapWindow ∧ r.seq + 1 < wordSize
  consistent : p.stats.pendingInconsistency = 0

theorem create_invariant {capacity : Nat} (small : gapWindow + 1 < wordSize) :
    Invariant gapWindow (create gapWindow capacity) where
  lanes := by
    intro v
    have tidy := create_tidy gapWindow capacity v
    refine ⟨rfl, SequenceTracker.create_windowed small, ?_, tidy.labels, tidy.stored, ?_,
      List.Pairwise.nil⟩
    · intro k
      constructor
      · intro member
        obtain ⟨e, found⟩ := OrderedMap.mem_keys.mp member
        cases found
      · intro held
        exact absurd held TagRing.holds_cleared
    · intro e member
      cases member
  recovered := by
    intro r member
    cases member
  consistent := rfl

theorem processEvent_next_le (tidy : (p.lane ev.venue).Tidy ev.venue)
    (room : (p.lane ev.venue).RoomFor ev) (v : Venue) :
    (p.tracker v).nextExpected ≤ ((p.processEvent ev).tracker v).nextExpected := by
  by_cases same : v = ev.venue
  · subst same
    exact (processEvent_lane tidy room).next_le tidy room
  · have frame := congrArg Lane.tracker (processEvent_frame tidy room same)
    exact (congrArg SequenceTracker.nextExpected frame).symm.le

theorem Invariant.processEvent (inv : Invariant gapWindow p)
    (last : (p.lane ev.venue).LastBeyondWindow ev) : Invariant gapWindow (p.processEvent ev) := by
  have lane := inv.lanes ev.venue
  have word := ev.seq_lt
  refine ⟨?_, ?_, ?_⟩
  · intro v
    by_cases same : v = ev.venue
    · subst same
      exact lane.step rfl last (processEvent_lane lane.tidy last.room)
    · rw [processEvent_frame lane.tidy last.room same]
      exact inv.lanes v
  · intro r member
    rw [processEvent_recovered lane.tidy last.room] at member
    have grows := processEvent_next_le lane.tidy last.room r.venue
    rcases List.mem_append.mp member with old | new
    · have := inv.recovered r old
      exact ⟨by omega, this.2⟩
    · obtain ⟨stored, low, high, near⟩ := mem_requested new
      have venue := lane.stored r stored
      have width : (p.tracker ev.venue).gapWindow = gapWindow := lane.width
      rw [venue] at grows ⊢
      exact ⟨by omega, by omega⟩
  · rcases (p.tracker ev.venue).position ev.seq with old | ⟨same, _⟩ | far | ⟨ahead, near⟩
    · rw [processEvent_old old]
      exact inv.consistent
    · have room := last.room same
      have effect := processEvent_advanced same lane.windowed.toUnwrapped lane.labels room
      have hits : (p.bufferedFrom ev.venue (ev.seq + 1)
          (p.tracker ev.venue).released.2.1).length = (p.tracker ev.venue).released.2.1 := by
        have lengths := congrArg List.length (lane.released_events same room)
        rw [List.length_map, List.length_range'] at lengths
        exact lengths
      rw [effect.stats, hits]
      simpa using inv.consistent
    · rw [processEvent_tooLarge far, evictStore_stats]
      exact inv.consistent
    · rw [processEvent_buffered ahead near]
      exact inv.consistent

/-- Reinjection rule: an invariant that every reinjected event keeps, together
with what the remaining recovered events need, holds after the loop. -/
theorem reinjectRecovered_rule {P : Pipeline → Prop} {R : Pipeline → BookEvent → Prop}
    (step : ∀ q r, P q → R q r → P (q.reinject r))
    (keep : ∀ q r s, P q → R q r → R q s → R (q.reinject r) s)
    (start : P { p with recoverySim := p.recoverySim.drainRecovered.1 })
    (ready : ∀ r ∈ p.recoverySim.pendingRecovered,
      R { p with recoverySim := p.recoverySim.drainRecovered.1 } r) :
    P p.reinjectRecovered := by
  have loop : ∀ (rs : List BookEvent) (q : Pipeline), P q → (∀ r ∈ rs, R q r) →
      P (rs.foldl reinject q) := by
    intro rs
    induction rs with
    | nil => exact fun q holds _ => holds
    | cons r rest ih =>
      intro q holds ready
      have here := ready r (by simp)
      exact ih _ (step q r holds here)
        (fun s member => keep q r s holds here (ready s (by simp [member])))
  exact loop _ _ start ready

theorem Invariant.reinject (inv : Invariant gapWindow p) {r : BookEvent}
    (below : r.seq + 1 < wordSize) : Invariant gapWindow (p.reinject r) := by
  simp only [Pipeline.reinject]
  split
  · exact inv
  · have next : Invariant gapWindow (p.processEvent r) :=
      inv.processEvent (Lane.LastBeyondWindow.of_lt below)
    exact ⟨next.lanes, next.recovered, next.consistent⟩

theorem Invariant.record (inv : Invariant gapWindow p) (ev : BookEvent) :
    Invariant gapWindow (p.record ev) := by
  refine ⟨?_, inv.recovered, inv.consistent⟩
  intro v
  have lane := inv.lanes v
  refine ⟨lane.width, lane.windowed, lane.keys, lane.labels, ?_, lane.behind, lane.increasing⟩
  intro e member
  rcases ReplayRecoveryStore.mem_recordEvent member with old | ⟨rfl, venue⟩
  · exact lane.stored e old
  · exact venue.symm

theorem Invariant.reinject_next_le (inv : Invariant gapWindow p) {r : BookEvent}
    (below : r.seq + 1 < wordSize) (v : Venue) :
    (p.tracker v).nextExpected ≤ ((p.reinject r).tracker v).nextExpected := by
  simp only [Pipeline.reinject]
  split
  · exact Nat.le_refl _
  · exact processEvent_next_le (inv.lanes r.venue).tidy (Lane.LastBeyondWindow.of_lt below).room v

/-- Step lemma: one call of `on_event` keeps the buffer invariant, and no venue
expects an earlier sequence afterwards. -/
theorem Invariant.onEvent (inv : Invariant gapWindow p)
    (last : (p.lane ev.venue).LastBeyondWindow ev) :
    Invariant gapWindow (p.onEvent ev) ∧
      ∀ v, (p.tracker v).nextExpected ≤ ((p.onEvent ev).tracker v).nextExpected := by
  have recorded := inv.record ev
  have processed : Invariant gapWindow ((p.record ev).processEvent ev) :=
    recorded.processEvent last
  apply reinjectRecovered_rule
    (P := fun q => Invariant gapWindow q ∧
      ∀ v, (p.tracker v).nextExpected ≤ (q.tracker v).nextExpected)
    (R := fun _ r => r.seq + 1 < wordSize)
  · intro q r holds below
    exact ⟨holds.1.reinject below,
      fun v => (holds.2 v).trans (holds.1.reinject_next_le below v)⟩
  · exact fun _ _ _ _ _ below => below
  · refine ⟨⟨processed.lanes, ?_, processed.consistent⟩, ?_⟩
    · intro r member
      cases member
    · exact processEvent_next_le (recorded.lanes ev.venue).tidy last.room
  · exact fun r member => (processed.recovered r member).2

/-- Run lemma: the buffer invariant holds after every run whose steps keep the
last 64-bit sequence out of the window. -/
theorem run_invariant {capacity : Nat} {events : List BookEvent}
    (small : gapWindow + 1 < wordSize)
    (along : Run.Along onEvent (fun p ev => (p.lane ev.venue).LastBeyondWindow ev)
      (create gapWindow capacity) events) :
    Invariant gapWindow (run gapWindow capacity events) :=
  along.invariant (fun _ _ inv last => (inv.onEvent last).1) (create_invariant small)

theorem along_of_below {capacity : Nat} {events : List BookEvent}
    (below : ∀ ev ∈ events, ev.seq < 2 ^ 64 - 1) :
    Run.Along onEvent (fun p ev => (p.lane ev.venue).LastBeyondWindow ev)
      (create gapWindow capacity) events := by
  have room : Run.Along onEvent (fun _ ev => ev.seq < 2 ^ 64 - 1)
      (create gapWindow capacity) events := Run.along_of_forall _ _ below
  exact room.mono (fun _ ev bound => Lane.LastBeyondWindow.of_lt (by unfold wordSize; omega))

/-- Buffer invariant and exactly-once publication, for every run over sequences
below the last one: duplicates, gaps inside and beyond the window, forced
advances and reinjection included. -/
theorem pending_matches_ring (capacity : Nat) (events : List BookEvent)
    (small : gapWindow < 2 ^ 64 - 64) (below : ∀ ev ∈ events, ev.seq < 2 ^ 64 - 1) (v : Venue) :
    let p := run gapWindow capacity events
    (∀ k, k ∈ (p.pendingByVenue v).keys ↔
      k ≠ 0 ∧ ∃ i, (p.tracker v).bufferedTags.tag i = k) ∧
    (∀ k ∈ (p.pendingByVenue v).keys,
      (p.tracker v).nextExpected < k ∧ k < (p.tracker v).nextExpected + gapWindow + 1) ∧
    p.stats.pendingInconsistency = 0 ∧
    ((p.published v).map BookEvent.seq).Pairwise (· < ·) := by
  intro p
  have inv : Invariant gapWindow p :=
    run_invariant (by unfold wordSize; omega) (along_of_below below)
  have lane := inv.lanes v
  refine ⟨fun k => (lane.keys k).trans TagRing.holds_iff_exists, ?_, inv.consistent,
    lane.increasing⟩
  intro k member
  have held := (lane.keys k).mp member
  have low := (lane.windowed.ahead k held).1
  have high := lane.windowed.within k held
  rw [lane.width] at high
  exact ⟨low, by change k < (p.lane v).tracker.nextExpected + gapWindow + 1; omega⟩

/-- A run with a buffered event, a forced advance that evicts it, a reinjection
and an event that is still waiting at the end. -/
theorem pending_matches_ring_forced :
    let p := run 2 8 [{ sequence := 1 }, { sequence := 3 }, { sequence := 10 },
      { sequence := 11 }, { sequence := 14 }]
    (p.stats.droppedGapTooLargePendingEvicted = 1 ∧ p.stats.recoveryReinjected = 1 ∧
      (p.pendingByVenue .nasdaq).keys = [14]) ∧
    (∀ k, k ∈ (p.pendingByVenue .nasdaq).keys ↔
      k ≠ 0 ∧ ∃ i, (p.tracker .nasdaq).bufferedTags.tag i = k) ∧
    (∀ k ∈ (p.pendingByVenue .nasdaq).keys,
      (p.tracker .nasdaq).nextExpected < k ∧ k < (p.tracker .nasdaq).nextExpected + 2 + 1) ∧
    p.stats.pendingInconsistency = 0 ∧
    ((p.published .nasdaq).map BookEvent.seq).Pairwise (· < ·) :=
  ⟨by decide, pending_matches_ring 8 [{ sequence := 1 }, { sequence := 3 }, { sequence := 10 },
    { sequence := 11 }, { sequence := 14 }] (by decide) (by decide) .nasdaq⟩

/-- Over arbitrary 64-bit sequences, expectations never decrease and nothing is
published twice in every run that takes the last sequence only beyond the window. -/
theorem sequencing_monotone (capacity : Nat) (events : List BookEvent)
    (small : gapWindow < 2 ^ 64 - 64)
    (along : Run.Along onEvent (fun p ev => (p.lane ev.venue).LastBeyondWindow ev)
      (create gapWindow capacity) events) :
    (∀ before ev after, events = before ++ ev :: after → ∀ v,
      ((run gapWindow capacity before).tracker v).nextExpected ≤
        ((run gapWindow capacity (before ++ [ev])).tracker v).nextExpected) ∧
    ∀ v, (((run gapWindow capacity events).published v).map BookEvent.sequence).Nodup := by
  have bound : gapWindow + 1 < wordSize := by unfold wordSize; omega
  constructor
  · intro before ev after split v
    subst split
    have earlier := ((Run.along_append _ _ _).mp along).1
    have inv : Invariant gapWindow (run gapWindow capacity before) := run_invariant bound earlier
    have step := (inv.onEvent along.at_step).2 v
    simpa only [run, List.foldl_append, List.foldl_cons, List.foldl_nil] using step
  · intro v
    have increasing := ((run_invariant bound along).lanes v).increasing
    apply List.Nodup.of_map UInt64.toNat
    rw [List.map_map]
    exact increasing.imp Nat.ne_of_lt

theorem sequencing_monotone_last :
    let events : List BookEvent := [{ sequence := 1 }, { sequence := 18446744073709551615 }]
    (∀ before ev after, events = before ++ ev :: after → ∀ v,
      ((run 8 4 before).tracker v).nextExpected ≤
        ((run 8 4 (before ++ [ev])).tracker v).nextExpected) ∧
    ∀ v, (((run 8 4 events).published v).map BookEvent.sequence).Nodup :=
  sequencing_monotone 4 _ (by decide) ⟨by unfold Lane.LastBeyondWindow; decide,
    by unfold Lane.LastBeyondWindow; decide, trivial⟩

/-- Taking the last sequence inside the window wraps the tracker: zero reads as a
buffered tag, the venue expects sequence 1 again and publishes it again. -/
theorem sequencing_wraps :
    ((run 8 4 [{ sequence := 1 }, { sequence := 18446744073709551615 },
        { sequence := 18446744073709551615 }]).tracker .nasdaq).nextExpected <
      ((run 8 4 [{ sequence := 1 }, { sequence := 18446744073709551615 }]).tracker
        .nasdaq).nextExpected ∧
    ¬ (((run 8 4 [{ sequence := 1 }, { sequence := 18446744073709551615 },
        { sequence := 18446744073709551615 }, { sequence := 1 }]).published .nasdaq).map
          BookEvent.sequence).Nodup := by
  decide

end FeedHandler.Pipeline
