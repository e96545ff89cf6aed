import FeedHandler.Phase2.PipelineInvariant

/-! Recovery after a forced advance. The event that forced the advance is dropped,
but it was recorded before, every older arrival of its venue lies below it, and
so the search finds it as soon as its successor reports the gap. -/
namespace FeedHandler.Pipeline

variable {p q : Pipeline} {ev r : BookEvent} {v : Venue} {gapWindow : Nat}

/-- The buffer invariant, with what recovery relies on: recorded arrivals are not
beyond the window, and the store keeps the window and the slack. -/
structure Recoverable (gapWindow : Nat) (p : Pipeline) : Prop extends Invariant gapWindow p where
  recorded : ∀ v, ∀ e ∈ (p.lane v).store, e.seq ≤ (p.lane v).tracker.nextExpected + gapWindow
  capacity : p.recoveryStore.maxEventsPerVenue = gapWindow + recoveryLookbackSlack

theorem processEvent_capacity (tidy : (p.lane ev.venue).Tidy ev.venue)
    (room : (p.lane ev.venue).RoomFor ev) :
    (p.processEvent ev).recoveryStore.maxEventsPerVenue =
      p.recoveryStore.maxEventsPerVenue := by
  rcases (p.tracker ev.venue).position ev.seq with old | ⟨same, _⟩ | far | ⟨ahead, near⟩
  · rw [processEvent_old old]
  · exact (processEvent_advanced same tidy.tracker tidy.labels (room same)).capacity
  · rw [processEvent_tooLarge far, evictStore_capacity]
  · rw [processEvent_buffered ahead near]

theorem Lane.Step.store_suffix {l l' : Lane} (step : Lane.Step ev l l') : l'.store <:+ l.store := by
  cases step with
  | old => exact List.suffix_refl _
  | tooLarge => exact keepRecent_suffix _ _
  | buffered => exact List.suffix_refl _
  | inOrder => exact keepRecent_suffix _ _

/-- Whatever the tracker answers, afterwards the event is not beyond the window. -/
theorem Lane.Step.not_beyond {l l' : Lane} (step : Lane.Step ev l l') (tidy : l.Tidy v)
    (room : l.RoomFor ev) : ev.seq ≤ l'.tracker.nextExpected + l.tracker.gapWindow := by
  have grows := step.next_le tidy room
  have positive := tidy.tracker.positive
  cases step with
  | old behind => omega
  | tooLarge far =>
    have moves : l.tracker.nextExpected < ev.seq := by omega
    simp only [SequenceTracker.forceAdvance_next moves]
    omega
  | buffered ahead near => exact near
  | inOrder same => omega

theorem processEvent_recorded (inv : Invariant gapWindow p)
    (last : (p.lane ev.venue).LastBeyondWindow ev)
    (recorded : ∀ v, ∀ e ∈ (p.lane v).store, e = ev ∨
      e.seq ≤ (p.lane v).tracker.nextExpected + gapWindow) :
    ∀ v, ∀ e ∈ ((p.processEvent ev).lane v).store,
      e.seq ≤ ((p.processEvent ev).lane v).tracker.nextExpected + gapWindow := by
  have lane := inv.lanes ev.venue
  intro v e member
  by_cases same : v = ev.venue
  · subst same
    have step := processEvent_lane lane.tidy last.room
    have grows := step.next_le lane.tidy last.room
    rcases recorded _ e (step.store_suffix.mem member) with rfl | bound
    · have := step.not_beyond lane.tidy last.room
      rw [lane.width] at this
      exact this
    · omega
  · rw [processEvent_frame lane.tidy last.room same] at member ⊢
    rcases recorded v e member with rfl | bound
    · exact absurd ((inv.lanes v).stored e member).symm same
    · exact bound

theorem Recoverable.reinject (rec : Recoverable gapWindow p) (below : r.seq + 1 < wordSize) :
    Recoverable gapWindow (p.reinject r) := by
  refine ⟨rec.toInvariant.reinject below, ?_, ?_⟩ <;> unfold Pipeline.reinject
  · split
    · exact rec.recorded
    · exact processEvent_recorded rec.toInvariant (Lane.LastBeyondWindow.of_lt below)
        (fun v e member => Or.inr (rec.recorded v e member))
  · split
    · exact rec.capacity
    · have lane := rec.lanes r.venue
      have same := processEvent_capacity lane.tidy (Lane.LastBeyondWindow.of_lt below).room
      exact same.trans rec.capacity

/-- After recording and processing an event, all its recoverability is back. -/
theorem Recoverable.processed (rec : Recoverable gapWindow p)
    (last : (p.lane ev.venue).LastBeyondWindow ev) :
    Recoverable gapWindow ((p.record ev).processEvent ev) := by
  have inv := rec.toInvariant.record ev
  refine ⟨inv.processEvent last, ?_, ?_⟩
  · apply processEvent_recorded inv last
    intro v e member
    rcases ReplayRecoveryStore.mem_recordEvent member with old | ⟨rfl, _⟩
    · exact Or.inr (rec.recorded v e old)
    · exact Or.inl rfl
  · have lane := inv.lanes ev.venue
    exact (processEvent_capacity lane.tidy last.room).trans rec.capacity

theorem Recoverable.drained (rec : Recoverable gapWindow p) :
    Recoverable gapWindow { p with recoverySim := p.recoverySim.drainRecovered.1 } := by
  refine ⟨⟨rec.lanes, ?_, rec.consistent⟩, rec.recorded, rec.capacity⟩
  intro r member
  cases member

theorem Recoverable.onEvent (rec : Recoverable gapWindow p)
    (last : (p.lane ev.venue).LastBeyondWindow ev) : Recoverable gapWindow (p.onEvent ev) := by
  have processed := rec.processed last
  apply reinjectRecovered_rule (P := Recoverable gapWindow)
    (R := fun _ r => r.seq + 1 < wordSize)
  · exact fun q r holds below => holds.reinject below
  · exact fun _ _ _ _ _ below => below
  · exact processed.drained
  · exact fun r member => (processed.recovered r member).2

theorem create_recoverable {capacity : Nat} (small : gapWindow + recoveryLookbackSlack < wordSize) :
    Recoverable gapWindow (create gapWindow capacity) where
  toInvariant := create_invariant (by unfold recoveryLookbackSlack at small; omega)
  recorded := by
    intro v e member
    cases member
  capacity := Nat.mod_eq_of_lt small

/-- Nothing recovered for `v` is waiting to be reinjected. -/
def NoneRecovered (v : Venue) (p : Pipeline) : Prop :=
  ∀ r ∈ p.recoverySim.pendingRecovered, r.venue ≠ v

/-- An event of another venue, or one that `v` has already passed, leaves the lane
of `v` as it is and recovers nothing for it. -/
theorem processEvent_idle (inv : Invariant gapWindow p)
    (last : (p.lane ev.venue).LastBeyondWindow ev)
    (idle : ev.venue = v → ev.seq < (p.tracker v).nextExpected) (none : NoneRecovered v p) :
    (p.processEvent ev).lane v = p.lane v ∧ NoneRecovered v (p.processEvent ev) := by
  have lane := inv.lanes ev.venue
  by_cases same : ev.venue = v
  · have behind := idle same
    subst same
    rw [processEvent_old (Or.inr behind)]
    exact ⟨rfl, none⟩
  · refine ⟨processEvent_frame lane.tidy last.room (Ne.symm same), ?_⟩
    intro r member
    rw [processEvent_recovered lane.tidy last.room] at member
    rcases List.mem_append.mp member with old | new
    · exact none r old
    · have venue := lane.stored r (mem_requested new).1
      exact fun here => same (venue.symm.trans here)

theorem reinject_idle (inv : Invariant gapWindow p) (below : r.seq + 1 < wordSize)
    (idle : r.venue = v → r.seq < (p.tracker v).nextExpected) (none : NoneRecovered v p) :
    (p.reinject r).lane v = p.lane v ∧ NoneRecovered v (p.reinject r) := by
  simp only [Pipeline.reinject]
  split
  · exact ⟨rfl, none⟩
  · exact processEvent_idle inv (Lane.LastBeyondWindow.of_lt below) idle none

/-- Reinjecting events that are idle for `v` is idle for `v`. -/
theorem foldl_reinject_idle (rs : List BookEvent) (rec : Recoverable gapWindow p)
    (below : ∀ r ∈ rs, r.seq + 1 < wordSize)
    (idle : ∀ r ∈ rs, r.venue = v → r.seq < (p.tracker v).nextExpected)
    (none : NoneRecovered v p) :
    Recoverable gapWindow (rs.foldl Pipeline.reinject p) ∧
      (rs.foldl Pipeline.reinject p).lane v = p.lane v ∧
      NoneRecovered v (rs.foldl Pipeline.reinject p) := by
  induction rs generalizing p with
  | nil => exact ⟨rec, rfl, none⟩
  | cons r rest ih =>
    have here := below r (by simp)
    obtain ⟨same, stillNone⟩ := reinject_idle rec.toInvariant here (idle r (by simp)) none
    have next : ((p.reinject r).tracker v).nextExpected = (p.tracker v).nextExpected :=
      congrArg (fun l => l.tracker.nextExpected) same
    obtain ⟨recAfter, sameAfter, noneAfter⟩ := ih (rec.reinject here)
      (fun s member => below s (by simp [member]))
      (fun s member venue => by rw [next]; exact idle s (by simp [member]) venue) stillNone
    exact ⟨recAfter, sameAfter.trans same, noneAfter⟩

/-- Where the recovered events are idle for `v`, the reinjection loop is. -/
theorem Recoverable.reinjectRecovered_idle (rec : Recoverable gapWindow p)
    (idle : ∀ r ∈ p.recoverySim.pendingRecovered, r.venue = v →
      r.seq < (p.tracker v).nextExpected) :
    p.reinjectRecovered.lane v = p.lane v ∧ NoneRecovered v p.reinjectRecovered :=
  (foldl_reinject_idle p.recoverySim.pendingRecovered rec.drained
    (fun r member => (rec.recovered r member).2) idle (fun r member => by cases member)).2

/-- A call for another venue does not touch the lane of `v`. -/
theorem Recoverable.onEvent_other (rec : Recoverable gapWindow p)
    (last : (p.lane ev.venue).LastBeyondWindow ev) (other : ev.venue ≠ v)
    (none : NoneRecovered v p) :
    (p.onEvent ev).lane v = p.lane v ∧ NoneRecovered v (p.onEvent ev) := by
  have inv := rec.toInvariant.record ev
  have recordFrame : (p.record ev).lane v = p.lane v := by
    simp only [lane, record, ReplayRecoveryStore.recordEvent, Function.update_of_ne (Ne.symm other)]
  obtain ⟨same, noneAfter⟩ := processEvent_idle inv last (fun venue => absurd venue other) none
  obtain ⟨frame, noneLast⟩ := (rec.processed last).reinjectRecovered_idle
    (fun r member venue => absurd venue (noneAfter r member))
  exact ⟨frame.trans (same.trans recordFrame), noneLast⟩

theorem dropWhile_keeps_last {α : Type} (test : α → Bool) (older : List α) (e : α)
    (kept : test e = false) :
    (older ++ [e]).dropWhile test = older.dropWhile test ++ [e] := by
  rw [List.dropWhile_append]
  split
  · next empty =>
    rw [List.isEmpty_iff.mp empty]
    simp [kept]
  · rfl

theorem keepRecent_keeps_last (older : List BookEvent) (e : BookEvent) :
    ∃ kept, keepRecent e.seq (older ++ [e]) = kept ++ [e] ∧ ∀ x ∈ kept, x ∈ older := by
  simp only [keepRecent]
  split
  · refine ⟨older.dropWhile (fun ev => decide (ev.seq < e.seq - recoveryLookbackSlack)),
      dropWhile_keeps_last _ _ _ (by simp), ?_⟩
    exact fun x member => (List.dropWhile_sublist _).mem member
  · exact ⟨older, rfl, fun x member => member⟩

/-- Recording keeps the newest arrivals that fit. -/
theorem record_keeps_newest (store : ReplayRecoveryStore) (ev : BookEvent)
    (older newest : List BookEvent) (shape : store.byVenue ev.venue = older ++ newest)
    (fits : newest.length < store.maxEventsPerVenue) :
    ∃ kept, (store.recordEvent ev).byVenue ev.venue = kept ++ (newest ++ [ev]) ∧
      ∀ x ∈ kept, x ∈ older := by
  refine ⟨older.drop ((older ++ newest ++ [ev]).length - store.maxEventsPerVenue), ?_,
    fun x member => List.mem_of_mem_drop member⟩
  simp only [ReplayRecoveryStore.recordEvent, Function.update_self, shape]
  rw [List.append_assoc, List.drop_append_of_le_length]
  simp only [List.length_append, List.length_singleton]
  omega

/-- The lane right after an advance forced by `e`: it expects the dropped event,
buffers nothing and has recorded the dropped event behind smaller sequences. -/
structure Lane.Awaits (e : BookEvent) (l : Lane) : Prop where
  next : l.tracker.nextExpected = e.seq
  empty : ∀ k, ¬ l.tracker.Buffered k
  recorded : ∃ kept, l.store = kept ++ [e] ∧ ∀ x ∈ kept, x.seq < e.seq

theorem processEvent_tooLarge_lane
    (far : (p.tracker ev.venue).nextExpected + (p.tracker ev.venue).gapWindow < ev.seq) :
    (p.processEvent ev).lane ev.venue =
        ⟨(p.tracker ev.venue).forceAdvance ev.seq,
          (p.pendingByVenue ev.venue).eraseBelow ev.seq, p.published ev.venue,
          keepRecent ev.seq (p.recoveryStore.byVenue ev.venue)⟩ ∧
      (p.processEvent ev).recoverySim.pendingRecovered = p.recoverySim.pendingRecovered := by
  have moves : (p.tracker ev.venue).nextExpected < ev.seq := by omega
  rw [processEvent_tooLarge far]
  simp only [lane, evictStore_sequencer, evictStore_pending, evictStore_merger, evictStore_sim,
    evictStore_byVenue, GapAwareSequencer.forceAdvance, GapAwareSequencer.nextExpected,
    Function.update_self, SequenceTracker.forceAdvance_next moves, and_self]

/-- The first call: the event is dropped and waits in the store. -/
theorem Recoverable.onEvent_tooLarge (rec : Recoverable gapWindow p)
    (far : (p.tracker ev.venue).nextExpected + gapWindow < ev.seq)
    (below : ev.seq + 1 < wordSize) :
    ((p.onEvent ev).lane ev.venue).Awaits ev ∧
      (p.onEvent ev).published ev.venue = p.published ev.venue ∧
      NoneRecovered ev.venue (p.onEvent ev) := by
  have lane := rec.lanes ev.venue
  have width : (p.tracker ev.venue).gapWindow = gapWindow := lane.width
  have beyond : (p.tracker ev.venue).nextExpected + (p.tracker ev.venue).gapWindow < ev.seq :=
    width.symm ▸ far
  obtain ⟨dropped, recovered⟩ := processEvent_tooLarge_lane (p := p.record ev) beyond
  obtain ⟨next, _, _, empty⟩ := lane.windowed.forceAdvance_spec beyond
  -- the store ends with the event, and everything older is inside the old window
  obtain ⟨fresh, shape, older⟩ := record_keeps_newest p.recoveryStore ev _ []
    (List.append_nil _).symm (by rw [rec.capacity]; unfold recoveryLookbackSlack; simp)
  obtain ⟨kept, keptShape, keptOld⟩ := keepRecent_keeps_last fresh ev
  have low : ∀ x ∈ kept, x.seq < ev.seq := by
    intro x member
    have bound : x.seq ≤ (p.tracker ev.venue).nextExpected + gapWindow :=
      rec.recorded ev.venue x (older x (keptOld x member))
    omega
  have stale : ∀ r ∈ ((p.record ev).processEvent ev).recoverySim.pendingRecovered,
      r.venue = ev.venue →
        r.seq < (((p.record ev).processEvent ev).lane ev.venue).tracker.nextExpected := by
    intro r member venue
    have bound := (rec.recovered r (recovered ▸ member)).1
    rw [venue] at bound
    simp only [dropped]
    exact next.symm ▸ Nat.lt_of_le_of_lt bound far
  obtain ⟨same, none⟩ :=
    (rec.processed (Lane.LastBeyondWindow.of_lt below)).reinjectRecovered_idle stale
  have final := same.trans dropped
  refine ⟨?_, congrArg Lane.queue final, none⟩
  simp only [Pipeline.onEvent]
  rw [final]
  exact ⟨next, empty, kept, (congrArg (keepRecent ev.seq) shape).trans keptShape, low⟩

/-- The search finds the dropped event once its successor reports the gap. -/
theorem Lane.Awaits.requested (awaits : (p.lane ev.venue).Awaits r) (successor : ev.seq = r.seq + 1)
    (wide : 1 ≤ (p.tracker ev.venue).gapWindow)
    (fits : 2 ≤ p.recoveryStore.maxEventsPerVenue) :
    (p.record ev).requested ev = [r] := by
  have next : (p.tracker ev.venue).nextExpected = r.seq := awaits.next
  obtain ⟨kept, shape, low⟩ := awaits.recorded
  obtain ⟨fresh, recorded, older⟩ := record_keeps_newest p.recoveryStore ev kept [r] shape fits
  have found : (p.record ev).recoveryStore.lookup ev.venue r.seq = some r := by
    apply ReplayRecoveryStore.lookup_partition recorded
    · exact fun e member => low e (older e member)
    · intro e member
      rw [List.mem_singleton.mp member]
      omega
  have tracker : (p.record ev).tracker ev.venue = p.tracker ev.venue := rfl
  have range : List.range' r.seq (r.seq + 1 - r.seq) = [r.seq] := by
    rw [Nat.add_sub_cancel_left]
    rfl
  simp only [Pipeline.requested]
  rw [tracker, next, successor, if_pos ⟨by omega, by omega⟩, range]
  simp [found]

/-- The in-order release of an event whose successor is the only one buffered. -/
theorem Lane.Step.release_pair {l l' : Lane} (step : Lane.Step r l l') (inv : l.Invariant gapWindow v)
    (same : r.seq = l.tracker.nextExpected) (room : r.seq + 1 < wordSize)
    (only : ∀ k, l.tracker.Buffered k ↔ k = r.seq + 1)
    (held : l.pending.find? (r.seq + 1) = some ev) :
    l'.queue = l.queue ++ [r, ev] ∧ l'.tracker.nextExpected = r.seq + 2 := by
  have positive := inv.windowed.positive
  obtain ⟨count, between, _, _, stops⟩ := inv.windowed.released_spec (same ▸ room)
  have notFirst : l.tracker.released.1 ≠ r.seq + 1 := fun here => stops ((only _).mpr here)
  have second : ¬ r.seq + 2 < l.tracker.released.1 := by
    intro more
    have := (only _).mp (between (r.seq + 2) (by omega) more)
    omega
  have one : l.tracker.released.2.1 = 1 := by omega
  cases step with
  | old behind => omega
  | tooLarge far => omega
  | buffered ahead => omega
  | inOrder =>
    refine ⟨?_, by change l.tracker.released.1 = r.seq + 2; omega⟩
    simp only [one, List.range'_one, List.filterMap_cons, held, List.filterMap_nil]

/-- A recovered event that is not buffered acts on its lane like an arrival. -/
theorem reinject_lane (tidy : (p.lane r.venue).Tidy r.venue) (room : (p.lane r.venue).RoomFor r)
    (absent : (p.pendingByVenue r.venue).find? r.seq = none) :
    Lane.Step r (p.lane r.venue) ((p.reinject r).lane r.venue) := by
  have step := processEvent_lane tidy room
  simp only [Pipeline.reinject]
  rw [absent]
  exact step

/-- The lane of an arrival that is recorded and buffered. -/
theorem processEvent_buffered_lane (ahead : (p.tracker ev.venue).nextExpected < ev.seq)
    (near : ev.seq ≤ (p.tracker ev.venue).nextExpected + (p.tracker ev.venue).gapWindow) :
    ((p.record ev).processEvent ev).lane ev.venue =
      ⟨(p.tracker ev.venue).marked ev.seq, (p.pendingByVenue ev.venue).insert ev.seq ev,
        p.published ev.venue, (p.recoveryStore.recordEvent ev).byVenue ev.venue⟩ := by
  rw [processEvent_buffered (p := p.record ev) ahead near]
  simp only [Pipeline.lane, Function.update_self]
  rfl

/-- The second call: the successor is buffered, the dropped event is recovered and
reinjected, and both are published. -/
theorem Recoverable.onEvent_successor (rec : Recoverable gapWindow p) (wide : 1 ≤ gapWindow)
    (awaits : (p.lane ev.venue).Awaits r) (venue : r.venue = ev.venue)
    (successor : ev.seq = r.seq + 1) (below : ev.seq + 1 < wordSize)
    (none : NoneRecovered ev.venue p) :
    (p.onEvent ev).published ev.venue = p.published ev.venue ++ [r, ev] ∧
      ((p.onEvent ev).tracker ev.venue).nextExpected = ev.seq + 1 := by
  have lane := rec.lanes ev.venue
  have next : (p.tracker ev.venue).nextExpected = r.seq := awaits.next
  have width : (p.tracker ev.venue).gapWindow = gapWindow := lane.width
  have ahead : (p.tracker ev.venue).nextExpected < ev.seq := by omega
  have near : ev.seq ≤ (p.tracker ev.venue).nextExpected + (p.tracker ev.venue).gapWindow := by
    omega
  have last : (p.lane ev.venue).LastBeyondWindow ev := Lane.LastBeyondWindow.of_lt below
  have recorded := rec.toInvariant.record ev
  have processed := rec.processed last
  have requested := awaits.requested successor (width.symm ▸ wide)
    (by rw [rec.capacity]; unfold recoveryLookbackSlack; omega)
  have recovered := processEvent_recovered (recorded.lanes ev.venue).tidy last.room
  rw [requested] at recovered
  -- events of other venues are reinjected first and leave the lane as it is
  let q := { (p.record ev).processEvent ev with
    recoverySim := ((p.record ev).processEvent ev).recoverySim.drainRecovered.1 }
  let q' := p.recoverySim.pendingRecovered.foldl Pipeline.reinject q
  have shape : p.onEvent ev = q'.reinject r := by
    simp only [Pipeline.onEvent, Pipeline.reinjectRecovered]
    simp only [ReplayRecoverySimulator.drainRecovered]
    rw [recovered, List.foldl_append]
    rfl
  obtain ⟨recAfter, sameLane, _⟩ := foldl_reinject_idle (v := ev.venue)
    p.recoverySim.pendingRecovered processed.drained
    (fun s member => (rec.recovered s member).2)
    (fun s member here => absurd here (none s member)) (fun s member => by cases member)
  have laneAfter : q'.lane ev.venue = _ := sameLane.trans (processEvent_buffered_lane ahead near)
  have invAfter := recAfter.lanes ev.venue
  have room : r.seq + 1 < wordSize := by omega
  have only : ∀ k, (q'.lane ev.venue).tracker.Buffered k ↔ k = r.seq + 1 := by
    intro k
    rw [laneAfter, ← successor]
    exact (lane.windowed.buffered_marked ahead near k).trans (or_iff_left (awaits.empty k))
  have expected : (q'.lane ev.venue).tracker.nextExpected = r.seq := by
    rw [laneAfter]
    exact next
  have absent : (q'.pendingByVenue r.venue).find? r.seq = Option.none := by
    rw [venue, OrderedMap.find?_eq_none]
    intro member
    have := (only r.seq).mp ((invAfter.keys r.seq).mp member)
    omega
  have step := reinject_lane (recAfter.lanes r.venue).tidy (fun _ => room) absent
  rw [venue] at step
  have held : (q'.lane ev.venue).pending.find? (r.seq + 1) = some ev := by
    rw [laneAfter, ← successor]
    simp
  obtain ⟨queue, advanced⟩ := step.release_pair invAfter expected.symm room only held
  have queueBefore : (q'.lane ev.venue).queue = p.published ev.venue := by rw [laneAfter]
  rw [queueBefore] at queue
  rw [shape]
  refine ⟨queue, ?_⟩
  rw [successor]
  exact advanced

theorem run_other {mid : List BookEvent} (rec : Recoverable gapWindow p)
    (none : NoneRecovered v p)
    (others : ∀ ev ∈ mid, ev.venue ≠ v ∧ ev.seq + 1 < wordSize) :
    Recoverable gapWindow (mid.foldl onEvent p) ∧ (mid.foldl onEvent p).lane v = p.lane v ∧
      NoneRecovered v (mid.foldl onEvent p) := by
  have along : Run.Along onEvent (fun _ ev => ev.venue ≠ v ∧ ev.seq + 1 < wordSize) p mid :=
    Run.along_of_forall p mid others
  apply along.invariant (P := fun q => Recoverable gapWindow q ∧ q.lane v = p.lane v ∧
    NoneRecovered v q) ?_ ⟨rec, rfl, none⟩
  rintro q ev ⟨recQ, sameQ, noneQ⟩ ⟨other, below⟩
  have last := Lane.LastBeyondWindow.of_lt (l := q.lane ev.venue) below
  obtain ⟨same, noneAfter⟩ := recQ.onEvent_other last other noneQ
  exact ⟨recQ.onEvent last, same.trans sameQ, noneAfter⟩

theorem run_recoverable {capacity : Nat} {events : List BookEvent}
    (small : gapWindow + recoveryLookbackSlack < wordSize)
    (below : ∀ ev ∈ events, ev.seq + 1 < wordSize) :
    Recoverable gapWindow (run gapWindow capacity events) := by
  have along : Run.Along onEvent (fun _ ev => ev.seq + 1 < wordSize)
      (create gapWindow capacity) events := Run.along_of_forall _ _ below
  exact along.invariant (fun _ _ rec bound => rec.onEvent (Lane.LastBeyondWindow.of_lt bound))
    (create_recoverable small)

/-- Recovery after a forced advance, from every reachable state and with any calls
of other venues in between. -/
theorem forced_advance_recovers (capacity : Nat) (before between : List BookEvent)
    (dropped next : BookEvent) (wide : 1 ≤ gapWindow) (small : gapWindow < 2 ^ 64 - 64)
    (below : ∀ ev ∈ before ++ dropped :: between, ev.seq < 2 ^ 64 - 2)
    (tooLarge : ((run gapWindow capacity before).sequence dropped.venue dropped.seq).2.update.status
      = .gapTooLarge)
    (others : ∀ ev ∈ between, ev.venue ≠ dropped.venue)
    (venue : next.venue = dropped.venue) (successor : next.seq = dropped.seq + 1) :
    let p := run gapWindow capacity (before ++ dropped :: between ++ [next])
    p.published dropped.venue =
        (run gapWindow capacity before).published dropped.venue ++ [dropped, next] ∧
      (p.tracker dropped.venue).nextExpected ≥ dropped.seq + 2 := by
  have bound : ∀ ev ∈ before ++ dropped :: between, ev.seq + 1 < wordSize := by
    intro ev member
    have := below ev member
    simp only [wordSize]
    omega
  have droppedBelow := below dropped (by simp)
  have ready : Recoverable gapWindow (run gapWindow capacity before) :=
    run_recoverable (by unfold recoveryLookbackSlack wordSize; omega)
      (fun ev member => bound ev (by simp [member]))
  have beyond := (SequenceTracker.tooLarge_iff _ _).mp tooLarge
  have width : ((run gapWindow capacity before).tracker dropped.venue).gapWindow = gapWindow :=
    (ready.lanes dropped.venue).width
  have far : ((run gapWindow capacity before).tracker dropped.venue).nextExpected + gapWindow <
      dropped.seq := by
    rw [width] at beyond
    exact beyond
  have forcedBound := bound dropped (by simp)
  obtain ⟨awaits, unpublished, none⟩ := ready.onEvent_tooLarge far forcedBound
  obtain ⟨recAfter, same, noneAfter⟩ :=
    run_other (ready.onEvent (Lane.LastBeyondWindow.of_lt forcedBound)) none
      (fun ev member => ⟨others ev member, bound ev (by simp [member])⟩)
  rw [← venue] at awaits same noneAfter unpublished ⊢
  rw [← same] at awaits
  obtain ⟨published, expected⟩ := recAfter.onEvent_successor wide awaits venue.symm successor
    (by unfold wordSize; omega) noneAfter
  have queue : (between.foldl onEvent ((run gapWindow capacity before).onEvent dropped)).published
      next.venue = _ := (congrArg Lane.queue same).trans unpublished
  rw [queue] at published
  simp only [run, List.foldl_append, List.foldl_cons, List.foldl_nil] at published expected ⊢
  refine ⟨published, ?_⟩
  omega

/-- Window 2: sequence 10 forces an advance past the buffered 3, another venue is
active, and 11 brings 10 back. -/
theorem forced_advance_recovers_ten :
    let p := run 2 8 ([{ sequence := 1 }, { sequence := 3 }] ++
      { sequence := 10 } :: [{ venue := .iex, sequence := 1 }] ++ [{ sequence := 11 }])
    p.published .nasdaq = (run 2 8 [{ sequence := 1 }, { sequence := 3 }]).published .nasdaq ++
        [{ sequence := 10 }, { sequence := 11 }] ∧
      (p.tracker .nasdaq).nextExpected ≥ 10 + 2 :=
  forced_advance_recovers 8 [{ sequence := 1 }, { sequence := 3 }] [{ venue := .iex, sequence := 1 }]
    { sequence := 10 } { sequence := 11 } (by decide) (by decide) (by decide) (by decide)
    (by decide) rfl rfl

end FeedHandler.Pipeline
