import FeedHandler.Phase2.PipelineInvariant

/-! The event ledger of the pipeline. Every path accounts for the event it takes,
except one: a second arrival of a sequence that is still buffered overwrites the
pending entry and is counted nowhere. -/
namespace FeedHandler.Pipeline

variable {p q : Pipeline} {ev : BookEvent} {v : Venue} {gapWindow : Nat}

/-- Number of entries in all pending maps. -/
def pendingTotal (p : Pipeline) : Nat := (Venue.all.map (fun v => (p.pendingByVenue v).size)).sum

/-- The left side of the ledger: every event accepted, dropped or still buffered. -/
def accounted (p : Pipeline) : Nat :=
  p.stats.accepted + p.stats.droppedPublishOverflow + p.stats.droppedDuplicateOrOld +
    p.stats.droppedGapTooLarge + p.stats.droppedGapTooLargePendingEvicted + p.pendingTotal

/-- The ledger after `calls` calls of `on_event`. -/
def Balanced (p : Pipeline) (calls : Nat) : Prop :=
  p.accounted = calls + p.stats.recoveryReinjected

instance (p : Pipeline) (calls : Nat) : Decidable (p.Balanced calls) :=
  inferInstanceAs (Decidable (_ = _))

/-- The event's sequence is already buffered for its venue. -/
def Rebuffers (p : Pipeline) (ev : BookEvent) : Prop := ev.seq ∈ (p.pendingByVenue ev.venue).keys

instance (p : Pipeline) (ev : BookEvent) : Decidable (p.Rebuffers ev) :=
  inferInstanceAs (Decidable (_ ∈ _))

theorem pendingTotal_update (others : ∀ w, w ≠ v → q.pendingByVenue w = p.pendingByVenue w) :
    q.pendingTotal + (p.pendingByVenue v).size = p.pendingTotal + (q.pendingByVenue v).size :=
  Venue.sum_update (f := fun w => (q.pendingByVenue w).size)
    (fun w other => congrArg OrderedMap.size (others w other))

theorem pendingTotal_set {m : OrderedMap Nat BookEvent}
    (pending : q.pendingByVenue = Function.update p.pendingByVenue v m) :
    q.pendingTotal + (p.pendingByVenue v).size = p.pendingTotal + m.size := by
  have total : q.pendingTotal + (p.pendingByVenue v).size =
      p.pendingTotal + (q.pendingByVenue v).size :=
    pendingTotal_update (fun w other => by rw [pending, Function.update_of_ne other])
  rwa [pending, Function.update_self] at total

theorem Lane.Invariant.keys_window {l : Lane} {k : Nat} (lane : l.Invariant gapWindow v)
    (member : k ∈ l.pending.keys) :
    l.tracker.nextExpected < k ∧ k ≤ l.tracker.nextExpected + l.tracker.gapWindow :=
  have held := (lane.keys k).mp member
  ⟨(lane.windowed.ahead k held).1, lane.windowed.within k held⟩

/-- Only an arrival ahead of its venue and inside the window can rebuffer. -/
theorem Invariant.not_rebuffers (inv : Invariant gapWindow p)
    (outside : ¬ ((p.tracker ev.venue).nextExpected < ev.seq ∧
      ev.seq ≤ (p.tracker ev.venue).nextExpected + (p.tracker ev.venue).gapWindow)) :
    ¬ p.Rebuffers ev :=
  fun member => outside ((inv.lanes ev.venue).keys_window member)

/-- Processing one event adds one account entry, unless it rebuffers. -/
theorem Invariant.processEvent_accounted (inv : Invariant gapWindow p)
    (last : (p.lane ev.venue).LastBeyondWindow ev) :
    (p.processEvent ev).accounted + (if p.Rebuffers ev then 1 else 0) = p.accounted + 1 ∧
      (p.processEvent ev).stats.recoveryReinjected = p.stats.recoveryReinjected := by
  have lane := inv.lanes ev.venue
  rcases (p.tracker ev.venue).position ev.seq with old | ⟨same, _⟩ | far | ⟨ahead, near⟩
  · have fresh : ¬ p.Rebuffers ev := inv.not_rebuffers (by omega)
    rw [processEvent_old old, if_neg fresh]
    refine ⟨?_, rfl⟩
    simp only [accounted, pendingTotal]
    omega
  · have fresh : ¬ p.Rebuffers ev := inv.not_rebuffers (by omega)
    have effect := processEvent_advanced same lane.windowed.toUnwrapped lane.labels (last.room same)
    have total := pendingTotal_update effect.others
    have size := effect.size
    rw [if_neg fresh]
    refine ⟨?_, by rw [effect.stats]⟩
    simp only [accounted, effect.stats]
    omega
  · have fresh : ¬ p.Rebuffers ev := inv.not_rebuffers (by omega)
    have shrinks := OrderedMap.size_eraseBelow_le (m := p.pendingByVenue ev.venue) (k := ev.seq)
    rw [processEvent_tooLarge far, if_neg fresh]
    generalize landed : Pipeline.evictStore _ _ = q
    have total : q.pendingTotal + (p.pendingByVenue ev.venue).size =
        p.pendingTotal + ((p.pendingByVenue ev.venue).eraseBelow ev.seq).size :=
      pendingTotal_set (by rw [← landed, evictStore_pending])
    have stats := congrArg Pipeline.stats landed
    rw [evictStore_stats] at stats
    refine ⟨?_, by rw [← stats]⟩
    simp only [accounted, ← stats]
    omega
  · rw [processEvent_buffered ahead near]
    generalize landed : Pipeline.mk _ _ _ _ _ _ = q
    have total : q.pendingTotal + (p.pendingByVenue ev.venue).size =
        p.pendingTotal + ((p.pendingByVenue ev.venue).insert ev.seq ev).size :=
      pendingTotal_set (by rw [← landed])
    have stats := congrArg Pipeline.stats landed
    refine ⟨?_, by rw [← stats]⟩
    simp only [accounted, ← stats]
    by_cases again : p.Rebuffers ev
    · rw [OrderedMap.size_insert_mem again] at total
      rw [if_pos again]
      omega
    · rw [OrderedMap.size_insert_fresh again] at total
      rw [if_neg again]
      omega

/-- One call of `on_event` adds one account entry beyond its reinjections, unless
the arrival rebuffers. -/
theorem Invariant.onEvent_accounted (inv : Invariant gapWindow p)
    (last : (p.lane ev.venue).LastBeyondWindow ev) :
    (p.onEvent ev).accounted + p.stats.recoveryReinjected + (if p.Rebuffers ev then 1 else 0) =
      p.accounted + 1 + (p.onEvent ev).stats.recoveryReinjected := by
  have recorded := inv.record ev
  have processed : Invariant gapWindow ((p.record ev).processEvent ev) := recorded.processEvent last
  obtain ⟨count, reinjected⟩ := recorded.processEvent_accounted last
  have loop : Invariant gapWindow (p.onEvent ev) ∧
      (p.onEvent ev).accounted + ((p.record ev).processEvent ev).stats.recoveryReinjected =
        ((p.record ev).processEvent ev).accounted + (p.onEvent ev).stats.recoveryReinjected := by
    apply reinjectRecovered_rule
      (P := fun q => Invariant gapWindow q ∧
        q.accounted + ((p.record ev).processEvent ev).stats.recoveryReinjected =
          ((p.record ev).processEvent ev).accounted + q.stats.recoveryReinjected)
      (R := fun _ r => r.seq + 1 < wordSize)
    · rintro q r ⟨holds, balance⟩ below
      refine ⟨holds.reinject below, ?_⟩
      simp only [Pipeline.reinject]
      split
      · exact balance
      · next absent =>
        have fresh : ¬ q.Rebuffers r := by
          intro member
          obtain ⟨e, found⟩ := OrderedMap.mem_keys.mp member
          simp [found] at absent
        have last : (q.lane r.venue).LastBeyondWindow r := Lane.LastBeyondWindow.of_lt below
        obtain ⟨step, same⟩ := holds.processEvent_accounted last
        rw [if_neg fresh] at step
        simp only [accounted, pendingTotal] at step balance ⊢
        omega
    · exact fun _ _ _ _ _ below => below
    · refine ⟨⟨processed.lanes, ?_, processed.consistent⟩, rfl⟩
      intro r member
      cases member
    · exact fun r member => (processed.recovered r member).2
  have balance := loop.2
  have same : (p.record ev).accounted = p.accounted := rfl
  have counter : (p.record ev).stats.recoveryReinjected = p.stats.recoveryReinjected := rfl
  have condition : (p.record ev).Rebuffers ev ↔ p.Rebuffers ev := Iff.rfl
  simp only [condition] at count
  omega

/-- From a balanced state the ledger stays balanced exactly as long as no arrival
rebuffers; a lost entry is never made up for. -/
theorem Invariant.balanced_while (inv : Invariant gapWindow p) {calls : Nat}
    (start : p.Balanced calls) (events : List BookEvent)
    (below : ∀ ev ∈ events, ev.seq + 1 < wordSize) :
    (∀ n ≤ events.length, ((events.take n).foldl Pipeline.onEvent p).Balanced (calls + n)) ↔
      Run.Along Pipeline.onEvent (fun p ev => ¬ p.Rebuffers ev) p events := by
  induction events generalizing p calls with
  | nil =>
    simp only [List.length_nil, Nat.le_zero, forall_eq, List.take_nil, List.foldl_nil,
      Nat.add_zero, Run.along_nil, iff_true]
    exact start
  | cons ev rest ih =>
    have last : (p.lane ev.venue).LastBeyondWindow ev :=
      Lane.LastBeyondWindow.of_lt (below ev (by simp))
    have step := inv.onEvent_accounted last
    have next := (inv.onEvent last).1
    have tail : ∀ e ∈ rest, e.seq + 1 < wordSize := fun e member => below e (by simp [member])
    have head : (p.onEvent ev).Balanced (calls + 1) ↔ ¬ p.Rebuffers ev := by
      simp only [Balanced] at start ⊢
      split at step
      · next again => exact ⟨fun balance => by omega, fun fresh => absurd again fresh⟩
      · next fresh => exact ⟨fun _ => fresh, fun _ => by omega⟩
    rw [Run.along_cons]
    constructor
    · intro all
      have first := all 1 (by simp)
      simp only [List.take_succ_cons, List.take_zero, List.foldl_cons, List.foldl_nil] at first
      refine ⟨head.mp first, (ih next first tail).mp ?_⟩
      intro n bound
      have later := all (n + 1) (by simpa using bound)
      rw [List.take_succ_cons, List.foldl_cons] at later
      rwa [Nat.add_assoc, Nat.add_comm 1 n]
    · rintro ⟨fresh, along⟩ n bound
      cases n with
      | zero => exact start
      | succ n =>
        have first := head.mpr fresh
        have later := (ih next first tail).mpr along n (by simpa using bound)
        rw [List.take_succ_cons, List.foldl_cons]
        rwa [Nat.add_assoc, Nat.add_comm 1 n] at later

/-- The ledger balances after every call exactly when no arrival repeats a
sequence that is still buffered for its venue. -/
theorem ledger_balanced_iff (capacity : Nat) (events : List BookEvent)
    (small : gapWindow < 2 ^ 64 - 64) (below : ∀ ev ∈ events, ev.seq < 2 ^ 64 - 1) :
    (∀ n ≤ events.length, (run gapWindow capacity (events.take n)).Balanced n) ↔
      Run.Along onEvent (fun p ev => ev.seq ∉ (p.pendingByVenue ev.venue).keys)
        (create gapWindow capacity) events := by
  have inv : Invariant gapWindow (create gapWindow capacity) :=
    create_invariant (by unfold wordSize; omega)
  have start : (create gapWindow capacity).Balanced 0 := rfl
  have room : ∀ ev ∈ events, ev.seq + 1 < wordSize := by
    intro ev member
    have := below ev member
    simp only [wordSize]
    omega
  have exact_when := inv.balanced_while start events room
  simp only [Nat.zero_add] at exact_when
  exact exact_when

theorem ledger_balanced_fill :
    (∀ n ≤ 3, (run 8 4 (List.take n
      [{ sequence := 2 }, { sequence := 1 }, { sequence := 2 }])).Balanced n) ↔
      Run.Along onEvent (fun p ev => ev.seq ∉ (p.pendingByVenue ev.venue).keys) (create 8 4)
        [{ sequence := 2 }, { sequence := 1 }, { sequence := 2 }] :=
  ledger_balanced_iff 4 [{ sequence := 2 }, { sequence := 1 }, { sequence := 2 }]
    (by decide) (by decide)

/-- Two arrivals of a sequence ahead of the expected one, and one account entry. -/
theorem ledger_unbalanced : ¬ (run 8 4 [{ sequence := 2 }, { sequence := 2 }]).Balanced 2 := by
  decide

end FeedHandler.Pipeline
