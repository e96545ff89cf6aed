import Mathlib.Data.List.Range
import FeedHandler.Lib.Run
import FeedHandler.Live.ResyncStateMachine

/-! What a hole in the sequence does to a Bitfinex feed: the updates lowered after a
snapshot continue its sequence without a hole, and after a hole or a disconnect nothing is
lowered until the next snapshot. -/
namespace FeedHandler

open Bitfinex

namespace ResyncStateMachine

variable {D : Type*} [Binary64 D] {m : ResyncStateMachine}

/-- An update frame and its time. -/
abbrev Update (D : Type*) := UpdateFrame D × UInt64

def update (m : ResyncStateMachine) (u : Update D) : ResyncStateMachine := (m.onUpdate u.1 u.2).1

/-- The numbered updates among the following ones that are lowered. -/
def loweredSequences : ResyncStateMachine → List (Update D) → List Nat
  | _, [] => []
  | m, u :: rest =>
    let later := loweredSequences (m.update u) rest
    if (m.onUpdate u.1 u.2).2.1 = .none ∧ u.1.sequence ≠ 0 then u.1.sequence.toNat :: later
    else later

theorem loweredSequences_gapped (shut : m.state ≠ .live) (updates : List (Update D)) :
    loweredSequences m updates = [] := by
  induction updates with
  | nil => rfl
  | cons u rest ih =>
    have same : m.onUpdate u.1 u.2 = (m, .requestResubscribe, []) := if_pos shut
    simp only [loweredSequences, update, same, ih, reduceCtorEq, false_and, if_false]

/-- A frame that is no gap is unnumbered or the next one. -/
theorem not_gapsAt {sequence : UInt64} (numbered : sequence ≠ 0) (next : ¬ m.gapsAt sequence) :
    m.haveSeq = true ∧ sequence = m.lastSeq + 1 := by
  simp only [gapsAt, not_and_or, not_or, Bool.not_eq_false] at next
  exact (next.resolve_left (not_not.mpr numbered)).imp_right not_ne_iff.mp

theorem toNat_next {sequence last : UInt64} (numbered : sequence ≠ 0)
    (next : sequence = last + 1) : sequence.toNat = last.toNat + 1 := by
  have small := last.toNat_lt
  have nonzero : sequence.toNat ≠ 0 := fun zero => numbered (UInt64.toNat_inj.mp zero)
  have sum : sequence.toNat = (last.toNat + 1) % 2 ^ 64 := by
    rw [next, UInt64.toNat_add]
    rfl
  omega

/-- From any state the lowered sequences continue the last one without a hole. -/
theorem loweredSequences_eq (m : ResyncStateMachine) (updates : List (Update D)) :
    loweredSequences m updates =
        List.range' (m.lastSeq.toNat + 1) (loweredSequences m updates).length ∧
      (loweredSequences m updates ≠ [] → m.haveSeq = true) := by
  induction updates generalizing m with
  | nil => exact ⟨rfl, fun some => absurd rfl some⟩
  | cons u rest ih =>
    obtain ⟨shut, -⟩ | ⟨-, -, same⟩ | ⟨live, next, same⟩ := onUpdate_cases m u.1 u.2
    · rw [loweredSequences_gapped shut]
      exact ⟨rfl, fun some => absurd rfl some⟩
    · have none : loweredSequences m (u :: rest) = [] := by
        have shut : m.gap.state ≠ .live := FeedState.noConfusion
        simp only [loweredSequences, update, same, loweredSequences_gapped shut, reduceCtorEq,
          false_and, if_false]
      rw [none]
      exact ⟨rfl, fun some => absurd rfl some⟩
    · obtain ⟨range, have_⟩ := ih (m.applyUpdate u.1 u.2).1
      simp only [loweredSequences, update, same]
      by_cases numbered : u.1.sequence = 0
      · have last : (m.applyUpdate u.1 u.2).1.lastSeq = m.lastSeq := if_neg (not_not.mpr numbered)
        rw [if_neg (fun both => both.2 numbered)]
        exact ⟨last ▸ range, have_⟩
      · obtain ⟨known, follows⟩ := not_gapsAt numbered next
        have last : (m.applyUpdate u.1 u.2).1.lastSeq = u.1.sequence := if_pos numbered
        have count := toNat_next numbered follows
        rw [last, count] at range
        rw [if_pos ⟨rfl, numbered⟩]
        refine ⟨?_, fun _ => known⟩
        rw [List.length_cons, List.range'_succ, ← range, count]

/-- Shut to updates, with a given book. -/
def ShutWith (onBook : OnBookTracker) (m : ResyncStateMachine) : Prop :=
  m.state ≠ .live ∧ m.onBook = onBook

theorem onUpdate_shut (shut : m.state ≠ .live) (frame : UpdateFrame D) (tsNs : UInt64) :
    m.onUpdate frame tsNs = (m, .requestResubscribe, []) := if_pos shut

/-- A gap and a disconnect shut the feed, and leave its book alone. -/
theorem shutWith_of_refused {frame : UpdateFrame D} {tsNs : UInt64}
    (refused : (m.onUpdate frame tsNs).2.1 = .requestResubscribe) :
    ShutWith m.onBook (m.step (.update frame tsNs)) := by
  obtain ⟨shut, same⟩ | ⟨-, -, same⟩ | ⟨-, -, same⟩ := onUpdate_cases m frame tsNs
  · simp only [ShutWith, step, answer, same]
    exact ⟨shut, trivial⟩
  · simp only [ShutWith, step, answer, same]
    exact ⟨FeedState.noConfusion, rfl⟩
  · rw [same] at refused
    cases refused

theorem shutWith_disconnect : ShutWith m.onBook (m.step (.disconnect : Call D)) :=
  ⟨FeedState.noConfusion, rfl⟩

theorem ShutWith.after {onBook : OnBookTracker} (held : ShutWith onBook m) (call : Call D)
    (closed : ∀ frame tsNs, call ≠ .snapshot frame tsNs) : ShutWith onBook (m.step call) := by
  cases call with
  | snapshot frame tsNs => exact absurd rfl (closed frame tsNs)
  | update frame tsNs =>
    rw [step, answer, onUpdate_shut held.1]
    exact held
  | disconnect => exact ⟨FeedState.noConfusion, held.2⟩

/-- The call asks for a new subscription and emits nothing, if it is an update. -/
def Refuses (m : ResyncStateMachine) (call : Call D) : Prop :=
  ∀ frame tsNs, call = .update frame tsNs → (m.answer call).2 = (.requestResubscribe, [])

theorem ShutWith.run {onBook : OnBookTracker} {later : List (Call D)} (held : ShutWith onBook m)
    (closed : ∀ frame tsNs, .snapshot frame tsNs ∉ later) :
    Run.Along step Refuses m later ∧ (later.foldl step m).onBook = onBook := by
  induction later generalizing m with
  | nil => exact ⟨trivial, held.2⟩
  | cons call rest ih =>
    have next := held.after call
      (fun frame tsNs same => closed frame tsNs (same ▸ List.mem_cons_self))
    obtain ⟨along, kept⟩ := ih next
      (fun frame tsNs member => closed frame tsNs (List.mem_cons_of_mem _ member))
    refine ⟨⟨?_, along⟩, kept⟩
    rintro frame tsNs rfl
    rw [answer, onUpdate_shut held.1]

/-- The step refuses an update because of a hole, or is a disconnect. -/
def Shuts (m : ResyncStateMachine) (call : Call D) : Prop :=
  match call with
  | .snapshot _ _ => False
  | .update frame tsNs => (m.onUpdate frame tsNs).2.1 = .requestResubscribe
  | .disconnect => True

theorem Shuts.shutWith {call : Call D} (shuts : Shuts m call) : ShutWith m.onBook (m.step call) :=
  match call with
  | .snapshot _ _ => False.elim shuts
  | .update _ _ => shutWith_of_refused shuts
  | .disconnect => shutWith_disconnect

/-- After any run: the updates lowered behind a snapshot continue its sequence without a
hole; an update that finds the feed shut emits nothing; and once a gap or a disconnect has
shut it, every update is refused and the book stays as it was up to the next snapshot. -/
theorem gap_safety (wire : List UInt8) (before : List (Call D)) :
    let m := before.foldl step { symbolWire := wire }
    (∀ (frame : SnapshotFrame D) tsNs (updates : List (Update D)),
      let lowered := loweredSequences (m.step (.snapshot frame tsNs)) updates
      lowered = List.range' (frame.sequence.toNat + 1) lowered.length ∧
        (lowered ≠ [] → frame.sequence ≠ 0)) ∧
    (∀ (frame : UpdateFrame D) tsNs, m.state ≠ .live → (m.onUpdate frame tsNs).2.2 = []) ∧
    ∀ (call : Call D) (later : List (Call D)), Shuts m call →
      (∀ frame tsNs, .snapshot frame tsNs ∉ later) →
      Run.Along step Refuses (m.step call) later ∧
        (later.foldl step (m.step call)).onBook = m.onBook := by
  intro m
  refine ⟨fun frame tsNs updates => ?_, fun frame tsNs shut => ?_,
    fun call later shuts closed => ?_⟩
  · obtain ⟨range, known⟩ := loweredSequences_eq (m.step (.snapshot frame tsNs : Call D)) updates
    exact ⟨range, fun some => bne_iff_ne.mp (known some)⟩
  · rw [onUpdate_shut shut]
  · exact shuts.shutWith.run closed

end ResyncStateMachine

end FeedHandler
