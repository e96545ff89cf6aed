import FeedHandler.Live.Lowering

/-! The resynchronisation of a Bitfinex feed: snapshots open it, a hole in the sequence or
a disconnect closes it. Emitted events are handed back. The snapshot sidecar that is
written on the way has a model of its own, since nothing here reads the file; the channel id
is left out. -/
namespace FeedHandler

namespace Bitfinex

inductive FeedState where
  | gapped | live
  deriving DecidableEq, Repr

inductive FeedAction where
  | none | requestResubscribe
  deriving DecidableEq, Repr

structure FeedStats where
  gaps : Nat := 0
  resyncs : Nat := 0
  reconnects : Nat := 0
  snapshots : Nat := 0
  updatesApplied : Nat := 0
  deriving DecidableEq, Repr

structure SnapshotFrame (D : Type*) where
  rows : List (BookRow D) := []
  sequence : UInt64 := 0

structure UpdateFrame (D : Type*) where
  row : BookRow D
  sequence : UInt64 := 0

end Bitfinex

open Bitfinex

structure ResyncStateMachine where
  symbolWire : List UInt8
  state : FeedState := .gapped
  stats : FeedStats := {}
  onBook : OnBookTracker := .clear
  loweringStats : LoweringStats := {}
  lastSeq : UInt64 := 0
  haveSeq : Bool := false

namespace ResyncStateMachine

variable {D : Type*} [Binary64 D]

def onDisconnect (m : ResyncStateMachine) : ResyncStateMachine :=
  { m with
    state := .gapped
    haveSeq := false
    lastSeq := 0
    stats := { m.stats with reconnects := m.stats.reconnects + 1 } }

def onSnapshot (m : ResyncStateMachine) (frame : SnapshotFrame D) (tsNs : UInt64) :
    ResyncStateMachine × FeedAction × List BookEvent :=
  let lowered := lowerSnapshotRows tsNs m.symbolWire frame.rows .clear m.loweringStats
  ({ m with
      state := .live
      onBook := lowered.onBook
      loweringStats := lowered.stats
      lastSeq := frame.sequence
      haveSeq := frame.sequence != 0
      stats := { m.stats with
        snapshots := m.stats.snapshots + 1
        resyncs := m.stats.resyncs + 1 } },
    .none, lowered.events)

/-- The state after a hole was seen. -/
def gap (m : ResyncStateMachine) : ResyncStateMachine :=
  { m with
    state := .gapped
    haveSeq := false
    lastSeq := 0
    stats := { m.stats with gaps := m.stats.gaps + 1 } }

/-- The frame leaves a hole in the sequence. -/
def gapsAt (m : ResyncStateMachine) (sequence : UInt64) : Prop :=
  sequence ≠ 0 ∧ (m.haveSeq = false ∨ sequence ≠ m.lastSeq + 1)

instance (m : ResyncStateMachine) (sequence : UInt64) : Decidable (m.gapsAt sequence) :=
  inferInstanceAs (Decidable (_ ∧ _))

/-- Lowering the row of an update that is in sequence. -/
def applyUpdate (m : ResyncStateMachine) (frame : UpdateFrame D) (tsNs : UInt64) :
    ResyncStateMachine × FeedAction × List BookEvent :=
  let lowered := lowerRow frame.row frame.sequence tsNs m.symbolWire m.onBook m.loweringStats
  ({ m with
      lastSeq := if frame.sequence ≠ 0 then frame.sequence else m.lastSeq
      onBook := lowered.onBook
      loweringStats := lowered.stats
      stats := { m.stats with updatesApplied := m.stats.updatesApplied + lowered.events.length } },
    .none, lowered.events)

def onUpdate (m : ResyncStateMachine) (frame : UpdateFrame D) (tsNs : UInt64) :
    ResyncStateMachine × FeedAction × List BookEvent :=
  if m.state ≠ .live then (m, .requestResubscribe, [])
  else if m.gapsAt frame.sequence then (m.gap, .requestResubscribe, [])
  else m.applyUpdate frame tsNs

/-- What an update can do: it is turned away, it opens a gap, or it is lowered. -/
theorem onUpdate_cases (m : ResyncStateMachine) (frame : UpdateFrame D) (tsNs : UInt64) :
    (m.state ≠ .live ∧ m.onUpdate frame tsNs = (m, .requestResubscribe, [])) ∨
      (m.state = .live ∧ m.gapsAt frame.sequence ∧
        m.onUpdate frame tsNs = (m.gap, .requestResubscribe, [])) ∨
      (m.state = .live ∧ ¬ m.gapsAt frame.sequence ∧
        m.onUpdate frame tsNs = m.applyUpdate frame tsNs) := by
  simp only [onUpdate]
  by_cases live : m.state = .live
  · rw [if_neg (not_not.mpr live)]
    by_cases hole : m.gapsAt frame.sequence
    · exact Or.inr (Or.inl ⟨live, hole, if_pos hole⟩)
    · exact Or.inr (Or.inr ⟨live, hole, if_neg hole⟩)
  · exact Or.inl ⟨live, if_pos live⟩

/-- The calls a client makes. -/
inductive Call (D : Type*) where
  | snapshot (frame : SnapshotFrame D) (tsNs : UInt64)
  | update (frame : UpdateFrame D) (tsNs : UInt64)
  | disconnect

/-- The machine after a call, its answer and the events it emits. -/
def answer (m : ResyncStateMachine) : Call D → ResyncStateMachine × FeedAction × List BookEvent
  | .snapshot frame tsNs => m.onSnapshot frame tsNs
  | .update frame tsNs => m.onUpdate frame tsNs
  | .disconnect => (m.onDisconnect, .none, [])

def step (m : ResyncStateMachine) (call : Call D) : ResyncStateMachine := (m.answer call).1

end ResyncStateMachine

end FeedHandler
