import FeedHandler.Phase2.PipelineRecovery

/-! Runs without a forced advance. Every arrival that is not behind its venue waits
in the pending map, so recovery finds nothing to reinject, and what is published
for a sequence is what the pending map held. -/
namespace FeedHandler.Pipeline

variable {p q : Pipeline} {ev e r : BookEvent} {v : Venue} {gapWindow : Nat} {l l' : Lane}
  {past : List BookEvent}

/-- The event is the first arrival with its venue and sequence. -/
def FirstArrival (past : List BookEvent) (e : BookEvent) : Prop :=
  past.find? (fun x => x.venue = e.venue ∧ x.seq = e.seq) = some e

instance (past : List BookEvent) (e : BookEvent) : Decidable (FirstArrival past e) :=
  inferInstanceAs (Decidable (_ = _))

theorem FirstArrival.mem (first : FirstArrival past e) : e ∈ past := List.mem_of_find?_eq_some first

theorem FirstArrival.append (first : FirstArrival past e) (more : List BookEvent) :
    FirstArrival (past ++ more) e := by
  simp only [FirstArrival] at first ⊢
  rw [List.find?_append, first]
  rfl

theorem firstArrival_fresh (fresh : ∀ x ∈ past, x.venue = ev.venue → x.seq ≠ ev.seq) :
    FirstArrival (past ++ [ev]) ev := by
  have none : past.find? (fun x => x.venue = ev.venue ∧ x.seq = ev.seq) = none := by
    rw [List.find?_eq_none]
    intro x member
    simpa using fresh x member
  simp only [FirstArrival]
  rw [List.find?_append, none]
  simp

/-- What a lane keeps of the arrivals `past`: those not behind it are in the pending
map, and both the map and the published events hold first arrivals. -/
structure Lane.Arrived (past : List BookEvent) (v : Venue) (l : Lane) : Prop where
  held : ∀ e ∈ past, e.venue = v → l.tracker.nextExpected ≤ e.seq → (l.pending.find? e.seq).isSome
  buffered : ∀ k e, l.pending.find? k = some e → FirstArrival past e
  published : ∀ e ∈ l.queue, e.venue = v ∧ FirstArrival past e

/-- A buffered sequence arrives again only as an identical copy. -/
def Lane.Repeats (l : Lane) (ev : BookEvent) : Prop :=
  ∀ e ∈ l.pending.find? ev.seq, e = ev

instance (l : Lane) (ev : BookEvent) : Decidable (l.Repeats ev) :=
  inferInstanceAs (Decidable (∀ e ∈ _, _))

theorem Lane.Arrived.other (arrived : l.Arrived past v) (other : ev.venue ≠ v) :
    l.Arrived (past ++ [ev]) v where
  held := by
    intro e member venue ahead
    rcases List.mem_append.mp member with old | new
    · exact arrived.held e old venue ahead
    · exact absurd (List.mem_singleton.mp new ▸ venue) other
  buffered := fun k e found => (arrived.buffered k e found).append _
  published := fun e member => (arrived.published e member).imp id (·.append _)

/-- An arrival that is not behind the lane is the first of its sequence, unless an
identical copy is buffered. -/
theorem Lane.Arrived.first (arrived : l.Arrived past v) (venue : ev.venue = v)
    (repeats : l.Repeats ev) (ahead : l.tracker.nextExpected ≤ ev.seq) :
    FirstArrival (past ++ [ev]) ev := by
  cases found : l.pending.find? ev.seq with
  | some e => exact repeats e found ▸ (arrived.buffered _ e found).append _
  | none =>
    apply firstArrival_fresh
    intro x member sameVenue sameSeq
    have held := arrived.held x member (sameVenue.trans venue) (sameSeq ▸ ahead)
    rw [sameSeq, found] at held
    cases held

theorem Lane.Tidy.step (tidy : l.Tidy v) (venue : ev.venue = v)
    (room : ev.seq + 1 < wordSize)
    (near : ev.seq ≤ l.tracker.nextExpected + l.tracker.gapWindow) (step : Lane.Step ev l l') :
    l'.Tidy v := by
  cases step with
  | old => exact tidy
  | tooLarge far => omega
  | buffered ahead =>
    exact ⟨tidy.tracker.marked ahead room, labels_insert tidy.labels venue, tidy.stored⟩
  | inOrder same remaining =>
    exact ⟨tidy.tracker.advanced (same ▸ room), labels_released tidy.labels remaining,
      fun e member => tidy.stored e ((keepRecent_suffix _ _).mem member)⟩

/-- Step lemma of the arrival invariant for the lane of the event. -/
theorem Lane.Arrived.step (arrived : l.Arrived past v) (tidy : l.Tidy v) (venue : ev.venue = v)
    (room : ev.seq + 1 < wordSize)
    (near : ev.seq ≤ l.tracker.nextExpected + l.tracker.gapWindow) (repeats : l.Repeats ev)
    (step : Lane.Step ev l l') : l'.Arrived (past ++ [ev]) v := by
  have positive := tidy.tracker.positive
  cases step with
  | old behind =>
    refine ⟨?_, fun k e found => (arrived.buffered k e found).append _,
      fun e member => (arrived.published e member).imp id (·.append _)⟩
    intro e member venue ahead
    rcases List.mem_append.mp member with old | new
    · exact arrived.held e old venue ahead
    · rw [List.mem_singleton.mp new] at ahead
      omega
  | tooLarge far => omega
  | buffered ahead =>
    refine ⟨?_, ?_, fun e member => (arrived.published e member).imp id (·.append _)⟩
    · intro e member sameVenue notBehind
      simp only [OrderedMap.find?_insert]
      split
      · rfl
      · next distinct =>
        rcases List.mem_append.mp member with old | new
        · exact arrived.held e old sameVenue notBehind
        · exact absurd (congrArg BookEvent.seq (List.mem_singleton.mp new)) distinct
    · intro k e found
      rw [OrderedMap.find?_insert] at found
      split at found
      · cases found
        exact arrived.first venue repeats ahead.le
      · exact (arrived.buffered k e found).append _
  | inOrder same remaining =>
    have bounds := tidy.tracker.released_bounded (same ▸ room)
    refine ⟨?_, ?_, ?_⟩
    · intro e member sameVenue notBehind
      change l.tracker.released.1 ≤ e.seq at notBehind
      simp only [remaining e.seq]
      rw [if_neg (by omega)]
      rcases List.mem_append.mp member with old | new
      · exact arrived.held e old sameVenue (by omega)
      · rw [List.mem_singleton.mp new] at notBehind
        omega
    · intro k e found
      rw [remaining k] at found
      split at found
      · contradiction
      · exact (arrived.buffered k e found).append _
    · intro e member
      rcases List.mem_append.mp member with old | new
      · exact (arrived.published e old).imp id (·.append _)
      · rcases List.mem_cons.mp new with rfl | released
        · exact ⟨venue, arrived.first venue repeats same.symm.le⟩
        · obtain ⟨k, _, found⟩ := List.mem_filterMap.mp released
          exact ⟨(tidy.labels k e found).1, (arrived.buffered k e found).append _⟩

/-- Number of events published over all venues. -/
def publishedTotal (p : Pipeline) : Nat := (Venue.all.map (fun v => (p.published v).length)).sum

theorem publishedTotal_update (others : ∀ w, w ≠ v → q.published w = p.published w) :
    q.publishedTotal + (p.published v).length = p.publishedTotal + (q.published v).length :=
  Venue.sum_update (f := fun w => (q.published w).length)
    (fun w other => congrArg List.length (others w other))

/-- The arrival invariant of the pipeline after the arrivals `past`. -/
structure Arrived (past : List BookEvent) (p : Pipeline) : Prop where
  tidy : ∀ v, (p.lane v).Tidy v
  lanes : ∀ v, (p.lane v).Arrived past v
  recorded : ∀ v, ∀ e ∈ (p.lane v).store, e ∈ past
  idle : p.recoverySim.pendingRecovered = []
  reinjected : p.stats.recoveryReinjected = 0
  unmerged : p.stats.mergedCrc = 0
  accepted : p.stats.accepted = p.publishedTotal

theorem create_arrived (gapWindow capacity : Nat) : Arrived [] (create gapWindow capacity) where
  tidy := create_tidy gapWindow capacity
  lanes := by
    intro v
    refine ⟨?_, ?_, ?_⟩
    · intro e member
      cases member
    · intro k e found
      cases found
    · intro e member
      cases member
  recorded := by
    intro v e member
    cases member
  idle := rfl
  reinjected := rfl
  unmerged := rfl
  accepted := rfl

/-- Nothing is reinjected while every recovered sequence is still buffered. -/
theorem reinjectRecovered_held (held : ∀ r ∈ p.recoverySim.pendingRecovered,
    ((p.pendingByVenue r.venue).find? r.seq).isSome) :
    p.reinjectRecovered = { p with recoverySim := p.recoverySim.drainRecovered.1 } := by
  apply reinjectRecovered_rule
    (P := fun q => q = { p with recoverySim := p.recoverySim.drainRecovered.1 })
    (R := fun q r => ((q.pendingByVenue r.venue).find? r.seq).isSome)
  · rintro q r rfl here
    simp only [Pipeline.reinject]
    rw [if_pos here]
  · rintro q r s rfl here later
    simp only [Pipeline.reinject]
    rw [if_pos here]
    exact later
  · rfl
  · exact held

theorem processEvent_accepted (tidy : (p.lane ev.venue).Tidy ev.venue)
    (room : (p.lane ev.venue).RoomFor ev) (balanced : p.stats.accepted = p.publishedTotal) :
    (p.processEvent ev).stats.accepted = (p.processEvent ev).publishedTotal ∧
      (p.processEvent ev).stats.recoveryReinjected = p.stats.recoveryReinjected ∧
      (p.processEvent ev).stats.mergedCrc = p.stats.mergedCrc := by
  rcases (p.tracker ev.venue).position ev.seq with old | ⟨same, _⟩ | far | ⟨ahead, near⟩
  · rw [processEvent_old old]
    exact ⟨balanced, rfl, rfl⟩
  · have effect := processEvent_advanced same tidy.tracker tidy.labels (room same)
    have total := publishedTotal_update (p := p) (q := p.processEvent ev) (v := ev.venue)
      (fun w other => by simp only [published, effect.queues, Function.update_of_ne other])
    simp only [published, effect.queues, Function.update_self, List.length_append,
      List.length_cons] at total
    rw [effect.stats]
    refine ⟨?_, rfl, rfl⟩
    simp only
    omega
  · rw [processEvent_tooLarge far, evictStore_stats]
    simp only [publishedTotal, published, evictStore_merger, and_true]
    exact balanced
  · rw [processEvent_buffered ahead near]
    exact ⟨balanced, rfl, rfl⟩

theorem Arrived.record_tidy (arrived : Arrived past p) (ev : BookEvent) (v : Venue) :
    ((p.record ev).lane v).Tidy v := by
  refine ⟨(arrived.tidy v).tracker, (arrived.tidy v).labels, ?_⟩
  intro e member
  rcases ReplayRecoveryStore.mem_recordEvent member with old | ⟨rfl, venue⟩
  · exact (arrived.tidy v).stored e old
  · exact venue.symm

theorem Arrived.record_recorded (arrived : Arrived past p) (ev : BookEvent) (v : Venue) :
    ∀ e ∈ ((p.record ev).lane v).store, e ∈ past ++ [ev] := by
  intro e member
  rcases ReplayRecoveryStore.mem_recordEvent member with old | ⟨rfl, _⟩
  · exact List.mem_append_left _ (arrived.recorded v e old)
  · simp

theorem Arrived.processed (arrived : Arrived past p) (room : ev.seq + 1 < wordSize)
    (near : ev.seq ≤ (p.tracker ev.venue).nextExpected + (p.tracker ev.venue).gapWindow)
    (repeats : (p.lane ev.venue).Repeats ev) (v : Venue) :
    (((p.record ev).processEvent ev).lane v).Arrived (past ++ [ev]) v := by
  have tidy := arrived.record_tidy ev ev.venue
  have recorded : ((p.record ev).lane v).Arrived past v :=
    ⟨(arrived.lanes v).held, (arrived.lanes v).buffered, (arrived.lanes v).published⟩
  by_cases same : v = ev.venue
  · subst same
    exact recorded.step tidy rfl room near repeats (processEvent_lane tidy (fun _ => room))
  · rw [processEvent_frame tidy (fun _ => room) same]
    exact recorded.other (Ne.symm same)

/-- A recovered event arrived earlier and is not behind its venue, so it is still
buffered, and the reinjection loop does nothing. -/
theorem Arrived.onEvent_eq (arrived : Arrived past p) (room : ev.seq + 1 < wordSize)
    (near : ev.seq ≤ (p.tracker ev.venue).nextExpected + (p.tracker ev.venue).gapWindow)
    (repeats : (p.lane ev.venue).Repeats ev) :
    p.onEvent ev =
      { (p.record ev).processEvent ev with
        recoverySim := ((p.record ev).processEvent ev).recoverySim.drainRecovered.1 } := by
  have tidy := arrived.record_tidy ev ev.venue
  apply reinjectRecovered_held
  intro r member
  rw [processEvent_recovered tidy (fun _ => room)] at member
  rcases List.mem_append.mp member with old | new
  · exact absurd (arrived.idle ▸ old : r ∈ []) List.not_mem_nil
  · obtain ⟨stored, low, high, inside⟩ := mem_requested new
    apply (arrived.processed room near repeats r.venue).held r
      (arrived.record_recorded ev ev.venue r stored) rfl
    rw [tidy.stored r stored, processEvent_buffered (p := p.record ev) (by omega) inside]
    simp only [lane, Function.update_self]
    exact low

/-- On its own lane an arrival then acts as one step of the sequencer. -/
theorem Arrived.onEvent_lane (arrived : Arrived past p) (room : ev.seq + 1 < wordSize)
    (near : ev.seq ≤ (p.tracker ev.venue).nextExpected + (p.tracker ev.venue).gapWindow)
    (repeats : (p.lane ev.venue).Repeats ev) :
    Lane.Step ev ((p.record ev).lane ev.venue) ((p.onEvent ev).lane ev.venue) := by
  rw [arrived.onEvent_eq room near repeats]
  exact processEvent_lane (arrived.record_tidy ev ev.venue) (fun _ => room)

theorem Arrived.onEvent_frame (arrived : Arrived past p) (room : ev.seq + 1 < wordSize)
    (near : ev.seq ≤ (p.tracker ev.venue).nextExpected + (p.tracker ev.venue).gapWindow)
    (repeats : (p.lane ev.venue).Repeats ev) (other : v ≠ ev.venue) :
    (p.onEvent ev).lane v = (p.record ev).lane v := by
  rw [arrived.onEvent_eq room near repeats]
  exact processEvent_frame (arrived.record_tidy ev ev.venue) (fun _ => room) other

/-- Step lemma: an arrival that is not beyond the window, and that repeats a
buffered sequence only as an identical copy, keeps the arrival invariant. -/
theorem Arrived.onEvent (arrived : Arrived past p) (room : ev.seq + 1 < wordSize)
    (near : ev.seq ≤ (p.tracker ev.venue).nextExpected + (p.tracker ev.venue).gapWindow)
    (repeats : (p.lane ev.venue).Repeats ev) : Arrived (past ++ [ev]) (p.onEvent ev) := by
  have tidy := arrived.record_tidy ev
  have step := arrived.onEvent_lane room near repeats
  have frame := fun v => arrived.onEvent_frame (v := v) room near repeats
  have lanes := arrived.processed room near repeats
  obtain ⟨accepted, reinjected, unmerged⟩ :=
    processEvent_accepted (tidy ev.venue) (fun _ => room) arrived.accepted
  have shape := arrived.onEvent_eq room near repeats
  refine ⟨?_, ?_, ?_, ?_, ?_, ?_, ?_⟩
  · intro v
    by_cases same : v = ev.venue
    · subst same
      exact (tidy ev.venue).step rfl room near step
    · rw [frame v same]
      exact tidy v
  · rw [shape]
    exact lanes
  · intro v e member
    apply arrived.record_recorded ev v e
    by_cases same : v = ev.venue
    · subst same
      exact step.store_suffix.mem member
    · rw [frame v same] at member
      exact member
  · rw [shape]
    rfl
  · rw [shape]
    exact reinjected.trans arrived.reinjected
  · rw [shape]
    exact unmerged.trans arrived.unmerged
  · rw [shape]
    exact accepted

/-- The sequencer does not answer that the gap is too large. -/
def WithinWindow (p : Pipeline) (ev : BookEvent) : Prop :=
  (p.sequence ev.venue ev.seq).2.update.status ≠ .gapTooLarge

instance (p : Pipeline) (ev : BookEvent) : Decidable (p.WithinWindow ev) :=
  inferInstanceAs (Decidable (¬ _))

theorem withinWindow_iff : p.WithinWindow ev ↔
    ev.seq ≤ (p.tracker ev.venue).nextExpected + (p.tracker ev.venue).gapWindow :=
  (not_congr (SequenceTracker.tooLarge_iff _ _)).trans Nat.not_lt

theorem WithinWindow.near (within : p.WithinWindow ev) :
    ev.seq ≤ (p.tracker ev.venue).nextExpected + (p.tracker ev.venue).gapWindow :=
  withinWindow_iff.mp within

theorem run_arrived {capacity : Nat} {events : List BookEvent}
    (below : ∀ ev ∈ events, ev.seq < 2 ^ 64 - 1)
    (along : Run.Along onEvent (fun p ev => p.WithinWindow ev ∧ (p.lane ev.venue).Repeats ev)
      (create gapWindow capacity) events) :
    Arrived events (run gapWindow capacity events) := by
  have bounded : Run.Along onEvent (fun _ ev => ev.seq < 2 ^ 64 - 1)
      (create gapWindow capacity) events := Run.along_of_forall _ _ below
  have both := along.and bounded
  refine both.history (P := Arrived) ?_ [] (create_arrived gapWindow capacity)
  rintro past p ev arrived ⟨⟨within, repeats⟩, bound⟩
  exact arrived.onEvent (by unfold wordSize; omega) within.near repeats

/-- First arrival wins, in every run without a forced advance in which a buffered
sequence arrives again only as an identical copy. -/
theorem first_arrival_published (gapWindow capacity : Nat) (events : List BookEvent)
    (below : ∀ ev ∈ events, ev.seq < 2 ^ 64 - 1)
    (within : Run.Along onEvent WithinWindow (create gapWindow capacity) events)
    (repeats : Run.Along onEvent (fun p ev => (p.lane ev.venue).Repeats ev)
      (create gapWindow capacity) events) :
    ∀ v, ∀ e ∈ (run gapWindow capacity events).published v,
      e.venue = v ∧ FirstArrival events e :=
  fun v => ((run_arrived below (within.and repeats)).lanes v).published

/-- A buffered event, its copy, the fill, and a late correction. -/
theorem first_arrival_published_late :
    let events : List BookEvent :=
      [{ sequence := 2 }, { sequence := 2 }, { sequence := 1 }, { sequence := 1, qty := 7 }]
    ∀ v, ∀ e ∈ (run 8 4 events).published v, e.venue = v ∧ FirstArrival events e :=
  first_arrival_published 8 4 _ (by decide)
    ⟨by decide, by decide, by decide, by decide, trivial⟩
    ⟨by decide, by decide, by decide, by decide, trivial⟩

/-- A second arrival of a sequence that is still buffered replaces the first one. -/
theorem buffered_correction_wins :
    let events : List BookEvent :=
      [{ sequence := 2, qty := 1 }, { sequence := 2, qty := 2 }, { sequence := 1 }]
    Run.Along onEvent WithinWindow (create 8 4) events ∧
      ¬ ∀ e ∈ (run 8 4 events).published .nasdaq, FirstArrival events e :=
  ⟨⟨by decide, by decide, by decide, trivial⟩, by decide⟩

end FeedHandler.Pipeline
