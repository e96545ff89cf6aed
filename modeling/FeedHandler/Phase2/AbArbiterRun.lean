import FeedHandler.Lib.Run
import FeedHandler.Phase2.AbArbiter
import FeedHandler.Phase2.VenueFeed

/-! Runs of the arbiter. A call for one venue leaves the other venues alone, whatever
the replay loop does; and as long as no pending event carries the sequence that
an in-order arrival ends at, that loop replays nothing and drops what it passed. -/
namespace FeedHandler
namespace AbArbiter

variable {arb : AbArbiter} {side : FeedSide} {ev : BookEvent} {v w : Venue}
  {replay : AbArbiter → BookEvent → AbArbiter} {next fuel i : Nat}

abbrev tracker (arb : AbArbiter) (v : Venue) : SequenceTracker := arb.sequencer.trackers v

/-- Pending events of a venue carry that venue. -/
def Labelled (arb : AbArbiter) (v : Venue) : Prop := ∀ e ∈ arb.pending v, e.venue = v

/-- The change from `arb` to `arb'` concerns venue `v` only. -/
structure LocalTo (v : Venue) (arb arb' : AbArbiter) : Prop where
  trackers : ∀ w, w ≠ v → arb'.tracker w = arb.tracker w
  pending : ∀ w, w ≠ v → arb'.pending w = arb.pending w
  ready : ∃ added, arb'.ready = arb.ready ++ added ∧ ∀ e ∈ added, e.venue = v
  labels : arb.Labelled v → arb'.Labelled v

theorem LocalTo.refl (v : Venue) (arb : AbArbiter) : LocalTo v arb arb :=
  ⟨fun _ _ => rfl, fun _ _ => rfl, ⟨[], by simp⟩, id⟩

theorem LocalTo.trans {a b c : AbArbiter} (first : LocalTo v a b) (second : LocalTo v b c) :
    LocalTo v a c := by
  obtain ⟨added, ready, venues⟩ := first.ready
  obtain ⟨more, readyMore, venuesMore⟩ := second.ready
  refine ⟨fun w other => (second.trackers w other).trans (first.trackers w other),
    fun w other => (second.pending w other).trans (first.pending w other),
    ⟨added ++ more, by rw [readyMore, ready, List.append_assoc], ?_⟩,
    fun labels => second.labels (first.labels labels)⟩
  intro e member
  rcases List.mem_append.mp member with old | new
  · exact venues e old
  · exact venuesMore e new

theorem setPending_local {pend : List BookEvent} (labels : ∀ e ∈ pend, e.venue = v) :
    LocalTo v arb (arb.setPending v pend) where
  trackers := fun _ _ => rfl
  pending := fun w other => Function.update_of_ne other _ _
  ready := ⟨[], by simp [setPending]⟩
  labels := by
    intro _ e member
    simp only [setPending, Function.update_self] at member
    exact labels e member

theorem scanPending_local (inner : ∀ arb e, e.venue = v → arb.Labelled v → LocalTo v arb (replay arb e))
    (labels : arb.Labelled v) : LocalTo v arb (scanPending replay v next fuel i arb) := by
  induction fuel generalizing i arb with
  | zero => exact .refl v arb
  | succ fuel ih =>
    simp only [scanPending]
    cases found : (arb.pending v)[i]? with
    | none => exact .refl v arb
    | some e =>
      have venue := labels e (List.mem_of_getElem? found)
      have erased : LocalTo v arb (arb.setPending v ((arb.pending v).eraseIdx i)) :=
        setPending_local (fun x member => labels x (List.mem_of_mem_eraseIdx member))
      simp only
      split
      · exact erased.trans (ih (erased.labels labels))
      · split
        · have replayed := inner _ e venue (erased.labels labels)
          have both := erased.trans replayed
          exact both.trans (ih (both.labels labels))
        · exact ih labels

theorem replayPending_local
    (inner : ∀ arb e, e.venue = v → arb.Labelled v → LocalTo v arb (replay arb e))
    (labels : arb.Labelled v) : LocalTo v arb (arb.replayPending replay v) := by
  simp only [replayPending]
  split
  · exact .refl v arb
  · have sorted : LocalTo v arb (arb.setPending v
        ((arb.pending v).insertionSort (fun a b => a.seq ≤ b.seq))) :=
      setPending_local (fun e member => labels e ((List.mem_insertionSort _).mp member))
    exact sorted.trans (scanPending_local inner (sorted.labels labels))

/-- The four things one call can do, with the replay loop left as it is. -/
inductive Outcome (replay : AbArbiter → BookEvent → AbArbiter) (arb : AbArbiter) (side : FeedSide)
    (ev : BookEvent) : AbArbiter → Prop where
  | old (behind : ev.seq = 0 ∨ ev.seq < (arb.tracker ev.venue).nextExpected) :
      Outcome replay arb side ev
        { arb with stats := { arb.stats with duplicateOrOld := arb.stats.duplicateOrOld + 1 } }
  | tooLarge
      (far : (arb.tracker ev.venue).nextExpected + (arb.tracker ev.venue).gapWindow < ev.seq) :
      Outcome replay arb side ev
        { arb with
          sequencer := arb.sequencer.forceAdvance ev.venue ev.seq
          stats := { arb.stats with
            gapTooLarge := arb.stats.gapTooLarge + 1
            forcedAdvances := arb.stats.forcedAdvances + 1 } }
  | buffered (ahead : (arb.tracker ev.venue).nextExpected < ev.seq)
      (near : ev.seq ≤ (arb.tracker ev.venue).nextExpected + (arb.tracker ev.venue).gapWindow) :
      Outcome replay arb side ev
        { arb with
          sequencer := ⟨Function.update arb.sequencer.trackers ev.venue
            ((arb.tracker ev.venue).marked ev.seq)⟩
          pending := Function.update arb.pending ev.venue (arb.pending ev.venue ++ [ev])
          stats := { arb.stats with gapBuffered := arb.stats.gapBuffered + 1 } }
  | inOrder (same : ev.seq = (arb.tracker ev.venue).nextExpected) (positive : 0 < ev.seq) :
      Outcome replay arb side ev
        (AbArbiter.replayPending replay ev.venue (AbArbiter.accept
          { arb with
            sequencer := ⟨Function.update arb.sequencer.trackers ev.venue
              (arb.tracker ev.venue).advanced⟩ } side ev))

theorem step_outcome (replay : AbArbiter → BookEvent → AbArbiter) (arb : AbArbiter)
    (side : FeedSide) (ev : BookEvent) :
    Outcome replay arb side ev (arb.step replay side ev).1 := by
  rcases (arb.tracker ev.venue).position ev.seq with old | ⟨same, positive⟩ | far | ⟨ahead, near⟩
  · simp only [step, GapAwareSequencer.onSequence, SequenceTracker.onSequence_old old,
      Function.update_eq_self]
    exact .old old
  · have answer := SequenceTracker.onSequence_inOrder (same ▸ positive)
    rw [← same] at answer
    simp only [step, GapAwareSequencer.onSequence, answer]
    exact .inOrder same positive
  · simp only [step, GapAwareSequencer.onSequence, SequenceTracker.onSequence_tooLarge far,
      Function.update_eq_self]
    exact .tooLarge far
  · simp only [step, GapAwareSequencer.onSequence, SequenceTracker.onSequence_buffered ahead near,
      setPending]
    exact .buffered ahead near

theorem Outcome.local {after : AbArbiter} (outcome : Outcome replay arb side ev after)
    (inner : ∀ arb e, e.venue = ev.venue → arb.Labelled ev.venue →
      LocalTo ev.venue arb (replay arb e))
    (labels : arb.Labelled ev.venue) : LocalTo ev.venue arb after := by
  cases outcome with
  | old => exact ⟨fun _ _ => rfl, fun _ _ => rfl, ⟨[], by simp⟩, id⟩
  | tooLarge =>
    refine ⟨fun w other => ?_, fun _ _ => rfl, ⟨[], by simp⟩, id⟩
    exact Function.update_of_ne other _ _
  | buffered =>
    refine ⟨fun w other => Function.update_of_ne other _ _,
      fun w other => Function.update_of_ne other _ _, ⟨[], by simp⟩, ?_⟩
    intro _ e member
    simp only [Function.update_self] at member
    rcases List.mem_append.mp member with old | new
    · exact labels e old
    · rw [List.mem_singleton.mp new]
  | inOrder =>
    have accepted : LocalTo ev.venue arb (AbArbiter.accept
        { arb with
          sequencer := ⟨Function.update arb.sequencer.trackers ev.venue
            (arb.tracker ev.venue).advanced⟩ } side ev) :=
      ⟨fun w other => Function.update_of_ne other _ _, fun _ _ => rfl, ⟨[ev], rfl, by simp⟩, id⟩
    exact accepted.trans (replayPending_local inner (accepted.labels labels))

theorem onEventAt_local (depth : Nat) (arb : AbArbiter) (side : FeedSide) (ev : BookEvent)
    (labels : arb.Labelled ev.venue) : LocalTo ev.venue arb (onEventAt depth arb side ev).1 := by
  induction depth generalizing arb ev with
  | zero => exact (step_outcome _ arb side ev).local (fun arb _ _ _ => .refl _ arb) labels
  | succ depth ih =>
    apply (step_outcome _ arb side ev).local _ labels
    intro inner e venue labelled
    exact venue ▸ ih inner e (venue.symm ▸ labelled)

theorem onEvent_local (side : FeedSide) (labels : arb.Labelled ev.venue) :
    LocalTo ev.venue arb (arb.onEvent side ev).1 :=
  onEventAt_local _ arb side ev labels

theorem onEvent_outcome (arb : AbArbiter) (side : FeedSide) (ev : BookEvent) :
    ∃ replay, Outcome replay arb side ev (arb.onEvent side ev).1 := by
  simp only [onEvent]
  cases (arb.pending ev.venue).length with
  | zero => exact ⟨_, step_outcome _ arb side ev⟩
  | succ depth => exact ⟨_, step_outcome _ arb side ev⟩

theorem step_status : (arb.step replay side ev).2.status =
    ((arb.tracker ev.venue).onSequence ev.seq).2.status := by
  simp only [step]
  simp only [GapAwareSequencer.onSequence]
  split <;> rfl

theorem onEvent_status (arb : AbArbiter) (side : FeedSide) (ev : BookEvent) :
    (arb.onEvent side ev).2.status = ((arb.tracker ev.venue).onSequence ev.seq).2.status := by
  simp only [onEvent]
  cases (arb.pending ev.venue).length with
  | zero => exact step_status
  | succ depth => exact step_status

/-- A scan that meets no event with sequence `next` replays nothing: it erases what
is below `next` and keeps the rest. -/
theorem scanPending_quiet (kept rest : List BookEvent) (shape : arb.pending v = kept ++ rest)
    (absent : ∀ e ∈ rest, e.seq ≠ next) (enough : rest.length < fuel) :
    scanPending replay v next fuel kept.length arb =
      arb.setPending v (kept ++ rest.filter (fun e => next < e.seq)) := by
  induction fuel generalizing arb kept rest with
  | zero => omega
  | succ fuel ih =>
    simp only [scanPending]
    cases rest with
    | nil =>
      have outside : (arb.pending v)[kept.length]? = none := by simp [shape]
      rw [outside]
      simp only [List.filter_nil, setPending, ← shape, Function.update_eq_self]
    | cons e rest =>
      have here : (arb.pending v)[kept.length]? = some e := by simp [shape]
      have distinct := absent e (by simp)
      have absentRest : ∀ x ∈ rest, x.seq ≠ next := fun x member => absent x (by simp [member])
      have room : rest.length < fuel := by
        rw [List.length_cons] at enough
        omega
      rw [here]
      simp only [if_neg distinct]
      by_cases behind : e.seq < next
      · rw [if_pos behind, shape, List.eraseIdx_append_of_length_le (Nat.le_refl _), Nat.sub_self,
          List.eraseIdx_cons_zero, ih kept rest (Function.update_self _ _ _) absentRest room,
          List.filter_cons_of_neg (by simpa using behind.le)]
        simp only [setPending, Function.update_idem]
      · have ahead : next < e.seq := by omega
        have moved : arb.pending v = (kept ++ [e]) ++ rest := by
          rw [shape, List.append_assoc]
          rfl
        have tail := ih (kept ++ [e]) rest moved absentRest room
        rw [List.length_append, List.length_singleton] at tail
        rw [if_neg behind, tail, List.filter_cons_of_pos (by simpa using ahead)]
        simp only [List.append_assoc, List.singleton_append]

/-- What an in-order arrival leaves pending when nothing is replayed. -/
def remaining (arb : AbArbiter) (v : Venue) (next : Nat) : List BookEvent :=
  ((arb.pending v).insertionSort (fun a b => a.seq ≤ b.seq)).filter (fun e => next < e.seq)

theorem mem_remaining {e : BookEvent} :
    e ∈ arb.remaining v next ↔ e ∈ arb.pending v ∧ next < e.seq := by
  simp [remaining, List.mem_filter]

theorem replayPending_quiet
    (absent : ∀ e ∈ arb.pending v, e.seq ≠ arb.sequencer.nextExpected v) :
    arb.replayPending replay v =
      arb.setPending v (arb.remaining v (arb.sequencer.nextExpected v)) := by
  simp only [replayPending]
  split
  · next empty =>
    have none : arb.pending v = [] := List.isEmpty_iff.mp empty
    have same : arb.remaining v (arb.sequencer.nextExpected v) = arb.pending v := by
      simp [remaining, none]
    simp only [same, setPending, Function.update_eq_self]
  · let sorted := (arb.pending v).insertionSort (fun a b => a.seq ≤ b.seq)
    have scanned : scanPending replay v (arb.sequencer.nextExpected v) (sorted.length + 1) 0
        (arb.setPending v sorted) = (arb.setPending v sorted).setPending v
          ([] ++ sorted.filter (fun e => arb.sequencer.nextExpected v < e.seq)) :=
      scanPending_quiet [] sorted (Function.update_self _ _ _)
        (fun e member => absent e ((List.mem_insertionSort _).mp member)) (Nat.lt_succ_self _)
    refine scanned.trans ?_
    simp only [List.nil_append, setPending, Function.update_idem, remaining, sorted]

/-- One arrival inside the window that replays nothing: the tracker takes its step, and
the event is handed out exactly when it was the expected one. -/
theorem onEvent_quiet (side : FeedSide) (positive : 0 < (arb.tracker ev.venue).nextExpected)
    (near : ev.seq ≤ (arb.tracker ev.venue).nextExpected + (arb.tracker ev.venue).gapWindow)
    (absent : ev.seq = (arb.tracker ev.venue).nextExpected →
      ∀ e ∈ arb.pending ev.venue, e.seq ≠ (arb.tracker ev.venue).advanced.nextExpected) :
    (arb.onEvent side ev).1.tracker ev.venue = ((arb.tracker ev.venue).onSequence ev.seq).1 ∧
      (arb.onEvent side ev).1.ready =
        arb.ready ++ (if ev.seq = (arb.tracker ev.venue).nextExpected then [ev] else []) ∧
      ∀ e ∈ (arb.onEvent side ev).1.pending ev.venue, e ∈ arb.pending ev.venue ∨ e = ev := by
  obtain ⟨replay, outcome⟩ := onEvent_outcome arb side ev
  generalize (arb.onEvent side ev).1 = after at outcome
  cases outcome with
  | old behind =>
    rw [SequenceTracker.onSequence_old behind, if_neg (by omega), List.append_nil]
    exact ⟨rfl, rfl, fun _ => Or.inl⟩
  | tooLarge far => omega
  | buffered ahead near =>
    rw [SequenceTracker.onSequence_buffered ahead near, if_neg (by omega), List.append_nil]
    simp only [tracker, Function.update_self, List.mem_append, List.mem_singleton, true_and]
    exact fun _ => id
  | inOrder same =>
    have answer := SequenceTracker.onSequence_inOrder positive
    rw [← same] at answer
    rw [answer, if_pos same, replayPending_quiet (by
      simpa only [accept, GapAwareSequencer.nextExpected, Function.update_self] using absent same)]
    simp only [tracker, setPending, accept, Function.update_self, true_and]
    exact fun e member => Or.inl (mem_remaining.mp member).1

end AbArbiter

/-- One call on the arbiter's interface. -/
inductive AbCall where
  | onEvent (side : FeedSide) (ev : BookEvent)
  | drainReady
  deriving DecidableEq, Repr

/-- The event a call delivers to the arbiter. -/
def AbCall.event? : AbCall → Option BookEvent
  | .onEvent _ ev => some ev
  | .drainReady => none

/-- The arbiter together with everything `drain_ready` has returned so far. -/
structure AbSession where
  arb : AbArbiter
  drained : List BookEvent := []

namespace AbSession

variable {s : AbSession} {side : FeedSide} {ev : BookEvent} {v : Venue} {calls : List AbCall}
  {gapWindow : Nat}

def call (s : AbSession) : AbCall → AbSession
  | .onEvent side ev => { s with arb := (s.arb.onEvent side ev).1 }
  | .drainReady => ⟨s.arb.drainReady.1, s.drained ++ s.arb.drainReady.2⟩

def run (gapWindow : Nat) (calls : List AbCall) : AbSession :=
  calls.foldl call ⟨.create gapWindow, []⟩

/-- Everything `drain_ready` has returned once it is called one more time. -/
def total (s : AbSession) : List BookEvent := s.drained ++ s.arb.ready

/-- The arrivals among some calls. -/
def arrivals (calls : List AbCall) : List BookEvent := calls.filterMap AbCall.event?

theorem arrivals_drain (calls : List AbCall) :
    arrivals (calls ++ [.drainReady]) = arrivals calls :=
  List.filterMap_append.trans (List.append_nil _)

theorem arrivals_onEvent (calls : List AbCall) (side : FeedSide) (ev : BookEvent) :
    arrivals (calls ++ [.onEvent side ev]) = arrivals calls ++ [ev] :=
  List.filterMap_append

/-- No arrival of venue `v` is answered that its gap is too large. -/
def WithinWindow (v : Venue) (s : AbSession) : AbCall → Prop
  | .onEvent side ev => ev.venue = v → (s.arb.onEvent side ev).2.status ≠ .gapTooLarge
  | .drainReady => True

instance (v : Venue) (s : AbSession) (c : AbCall) : Decidable (WithinWindow v s c) :=
  match c with
  | .onEvent _ _ => inferInstanceAs (Decidable (_ → _))
  | .drainReady => inferInstanceAs (Decidable True)

theorem total_drain : (s.call .drainReady).total = s.total := by
  simp [call, total, AbArbiter.drainReady]

theorem total_final : (s.call .drainReady).drained = s.total := rfl

theorem call_labelled (labels : ∀ v, s.arb.Labelled v) (c : AbCall) :
    ∀ v, (s.call c).arb.Labelled v := by
  intro v
  cases c with
  | drainReady => exact labels v
  | onEvent side ev =>
    have here := AbArbiter.onEvent_local side (labels ev.venue)
    by_cases same : v = ev.venue
    · subst same
      exact here.labels (labels ev.venue)
    · intro e member
      have pending := here.pending v same
      exact labels v e (pending ▸ member)

theorem run_labelled (gapWindow : Nat) (calls : List AbCall) (v : Venue) :
    (run gapWindow calls).arb.Labelled v := by
  apply Run.invariant (P := fun s : AbSession => ∀ v, s.arb.Labelled v)
    (fun s c labels => call_labelled labels c)
  intro v e member
  cases member

end AbSession
end FeedHandler
