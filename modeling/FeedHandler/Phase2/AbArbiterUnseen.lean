import FeedHandler.Phase2.AbArbiterRun

/-! What an arbiter has not taken. A sequence that it has neither passed nor buffered stays
so while smaller sequences arrive, whatever the history, the window and the replay loop. -/
namespace FeedHandler
namespace AbArbiter

variable {arb : AbArbiter} {side : FeedSide} {ev : BookEvent} {v : Venue} {k : Nat}
  {replay : AbArbiter → BookEvent → AbArbiter} {next fuel i : Nat}

/-- The arbiter has sequence `k` of the venue: it expects a later one or holds this one. -/
def Has (arb : AbArbiter) (v : Venue) (k : Nat) : Prop :=
  k = 0 ∨ (arb.tracker v).Seen k ∨ ∃ e ∈ arb.pending v, e.seq = k

structure Unseen (v : Venue) (k : Nat) (arb : AbArbiter) : Prop where
  labels : arb.Labelled v
  positive : k ≠ 0
  next : (arb.tracker v).nextExpected ≤ k
  clear : ¬ (arb.tracker v).Buffered k
  absent : ∀ e ∈ arb.pending v, e.seq ≠ k

theorem unseen_of_not_has (labels : arb.Labelled v) (fresh : ¬ arb.Has v k) : Unseen v k arb := by
  simp only [Has, SequenceTracker.Seen, not_or, not_exists, not_and, not_lt] at fresh
  obtain ⟨positive, ⟨next, clear⟩, absent⟩ := fresh
  exact ⟨labels, positive, next, clear, absent⟩

/-- A sequence that is not taken is not answered as an old one. -/
theorem Unseen.not_old (unseen : Unseen ev.venue ev.seq arb) :
    (arb.onEvent side ev).2.status ≠ .duplicateOrOld := by
  have positive := unseen.positive
  have next := unseen.next
  have waits : ¬ (ev.seq = 0 ∨ ev.seq < (arb.tracker ev.venue).nextExpected) := by omega
  rw [onEvent_status, SequenceTracker.status_eq, if_neg waits]
  split
  · exact fun equal => by cases equal
  · split <;> exact fun equal => by cases equal

theorem Unseen.setPending {pend : List BookEvent} (unseen : Unseen v k arb)
    (subset : ∀ e ∈ pend, e ∈ arb.pending v) : Unseen v k (arb.setPending v pend) where
  labels := by
    intro e member
    simp only [AbArbiter.setPending, Function.update_self] at member
    exact unseen.labels e (subset e member)
  positive := unseen.positive
  next := unseen.next
  clear := unseen.clear
  absent := by
    intro e member
    simp only [AbArbiter.setPending, Function.update_self] at member
    exact unseen.absent e (subset e member)

section Replay

variable (inner : ∀ arb e, e.venue = v → e.seq < k → Unseen v k arb → Unseen v k (replay arb e))
include inner

theorem scanPending_unseen (expected : next ≤ k) (unseen : Unseen v k arb) :
    Unseen v k (scanPending replay v next fuel i arb) := by
  induction fuel generalizing i arb with
  | zero => exact unseen
  | succ fuel ih =>
    simp only [scanPending]
    cases found : (arb.pending v)[i]? with
    | none => exact unseen
    | some e =>
      have member := List.mem_of_getElem? found
      have erased : Unseen v k (arb.setPending v ((arb.pending v).eraseIdx i)) :=
        unseen.setPending (fun x remains => List.mem_of_mem_eraseIdx remains)
      have distinct := unseen.absent e member
      simp only
      split
      · exact ih erased
      · split
        · next same =>
          exact ih (inner _ e (unseen.labels e member) (by omega) erased)
        · exact ih unseen

theorem replayPending_unseen (unseen : Unseen v k arb) :
    Unseen v k (arb.replayPending replay v) := by
  simp only [replayPending]
  split
  · exact unseen
  · exact scanPending_unseen inner unseen.next
      (unseen.setPending (fun e member => (List.mem_insertionSort _).mp member))

theorem Outcome.unseen {after : AbArbiter} (outcome : Outcome replay arb side ev after)
    (venue : ev.venue = v) (below : ev.seq < k) (unseen : Unseen v k arb) : Unseen v k after := by
  subst venue
  obtain ⟨labels, positive, next, clear, absent⟩ := unseen
  cases outcome with
  | old => exact ⟨labels, positive, next, clear, absent⟩
  | tooLarge far =>
    refine ⟨labels, positive, ?_, ?_, absent⟩
    · simp only [tracker, GapAwareSequencer.forceAdvance, Function.update_self]
      rw [SequenceTracker.forceAdvance_next (by simp only [tracker] at far; omega)]
      exact below.le
    · simp only [tracker, GapAwareSequencer.forceAdvance, Function.update_self]
      simp only [SequenceTracker.forceAdvance]
      split
      · exact clear
      · simp only [SequenceTracker.Buffered]
        split
        · exact TagRing.holds_cleared
        · exact fun held => clear ((TagRing.holds_foldl_discard _ _).mp held).1
  | buffered ahead near =>
    refine ⟨?_, positive, ?_, ?_, ?_⟩
    · intro e member
      simp only [Function.update_self] at member
      rcases List.mem_append.mp member with old | new
      · exact labels e old
      · rw [List.mem_singleton.mp new]
    · simp only [tracker, Function.update_self]
      exact next
    · simp only [tracker, Function.update_self]
      intro held
      rcases (TagRing.holds_mark (by omega)).mp held with same | ⟨_, before⟩
      · omega
      · exact clear before
    · intro e member
      simp only [Function.update_self] at member
      rcases List.mem_append.mp member with old | new
      · exact absent e old
      · rw [List.mem_singleton.mp new]
        omega
  | inOrder same =>
    have passed := TagRing.popRun_le wordSize
      (arb.tracker ev.venue).bufferedTags.popFuel
      (SequenceTracker.successor (arb.tracker ev.venue).nextExpected)
      (arb.tracker ev.venue).bufferedTags positive clear
      ((Nat.mod_le _ _).trans (by omega))
    apply replayPending_unseen inner
    refine ⟨labels, positive, ?_, ?_, absent⟩
    · simp only [tracker, accept, Function.update_self]
      exact passed.1
    · simp only [tracker, accept, Function.update_self]
      exact passed.2

end Replay

theorem onEventAt_unseen (depth : Nat) (arb : AbArbiter) (side : FeedSide) (ev : BookEvent)
    (venue : ev.venue = v) (below : ev.seq < k) (unseen : Unseen v k arb) :
    Unseen v k (onEventAt depth arb side ev).1 := by
  induction depth generalizing arb ev with
  | zero => exact (step_outcome _ arb side ev).unseen (fun _ _ _ _ => id) venue below unseen
  | succ depth ih =>
    exact (step_outcome _ arb side ev).unseen (fun inner e => ih inner e) venue below unseen

/-- The arbiter behind some arrivals on one side. -/
def feed (arb : AbArbiter) (side : FeedSide) (events : List BookEvent) : AbArbiter :=
  events.foldl (fun arb ev => (arb.onEvent side ev).1) arb

theorem feed_unseen (side : FeedSide) {events : List BookEvent} (venue : ∀ e ∈ events, e.venue = v)
    (below : ∀ e ∈ events, e.seq < k) (unseen : Unseen v k arb) :
    Unseen v k (arb.feed side events) :=
  (Run.along_of_forall (Q := fun e : BookEvent => e.venue = v ∧ e.seq < k) arb events
    (fun e member => ⟨venue e member, below e member⟩)).invariant
    (fun arb e unseen ok => onEventAt_unseen _ arb side e ok.1 ok.2 unseen) unseen

end AbArbiter
end FeedHandler
