import FeedHandler.Phase2.Recovery
import Mathlib.Data.List.Sort

/-! A/B line arbitration: two redundant feeds are sequenced by one tracker per
venue, events ahead of the expected sequence wait in a pending vector, and
accepted events are handed out by `drainReady`. -/
namespace FeedHandler

inductive FeedSide where
  | a | b
  deriving DecidableEq, Repr

structure AbArbiterStats where
  accepted : Nat := 0
  acceptedA : Nat := 0
  acceptedB : Nat := 0
  duplicateOrOld : Nat := 0
  gapBuffered : Nat := 0
  gapTooLarge : Nat := 0
  forcedAdvances : Nat := 0

structure AbArbiterResult where
  accepted : Bool := false
  status : SequenceStatus := .duplicateOrOld
  recovery : Option RecoveryRequest := none
  deriving DecidableEq, Repr

structure AbArbiter where
  sequencer : GapAwareSequencer
  pending : Venue → List BookEvent := fun _ => []
  ready : List BookEvent := []
  stats : AbArbiterStats := {}

namespace AbArbiter

def create (gapWindow : Nat) : AbArbiter := { sequencer := .create gapWindow }

def setPending (arb : AbArbiter) (venue : Venue) (pend : List BookEvent) : AbArbiter :=
  { arb with pending := Function.update arb.pending venue pend }

/-- The scan over the sorted pending vector after an in-order arrival. `next` is
read once before the scan; the iterator is the index `i`, which an erase leaves
in place. `replay` is the recursive call. -/
def scanPending (replay : AbArbiter → BookEvent → AbArbiter) (venue : Venue) (next : Nat) :
    Nat → Nat → AbArbiter → AbArbiter
  | 0, _, arb => arb
  | fuel + 1, i, arb =>
    match (arb.pending venue)[i]? with
    | none => arb
    | some e =>
      let erased := arb.setPending venue ((arb.pending venue).eraseIdx i)
      if e.seq < next then scanPending replay venue next fuel i erased
      else if e.seq = next then scanPending replay venue next fuel i (replay erased e)
      else scanPending replay venue next fuel (i + 1) arb

/-- Sort and scan the pending vector, unless it is empty. Equal sequences keep
their order here; the library sort leaves it open. -/
def replayPending (replay : AbArbiter → BookEvent → AbArbiter) (venue : Venue)
    (arb : AbArbiter) : AbArbiter :=
  if (arb.pending venue).isEmpty then arb
  else
    let sorted := (arb.pending venue).insertionSort (fun a b => a.seq ≤ b.seq)
    scanPending replay venue (arb.sequencer.nextExpected venue) (sorted.length + 1) 0
      (arb.setPending venue sorted)

def accept (arb : AbArbiter) (side : FeedSide) (ev : BookEvent) : AbArbiter :=
  { arb with
    ready := arb.ready ++ [ev]
    stats := { arb.stats with
      accepted := arb.stats.accepted + 1
      acceptedA := if side = .a then arb.stats.acceptedA + 1 else arb.stats.acceptedA
      acceptedB := if side = .a then arb.stats.acceptedB else arb.stats.acceptedB + 1 } }

/-- The body of `on_event`, with its recursive call as a parameter. -/
def step (replay : AbArbiter → BookEvent → AbArbiter) (arb : AbArbiter) (side : FeedSide)
    (ev : BookEvent) : AbArbiter × AbArbiterResult :=
  let answer := arb.sequencer.onSequence ev.venue ev.seq
  let out : AbArbiterResult :=
    { status := answer.2.update.status, recovery := answer.2.recovery }
  let arb := { arb with sequencer := answer.1 }
  match answer.2.update.status with
  | .duplicateOrOld =>
    ({ arb with stats := { arb.stats with duplicateOrOld := arb.stats.duplicateOrOld + 1 } }, out)
  | .gapBuffered =>
    ({ arb.setPending ev.venue (arb.pending ev.venue ++ [ev]) with
        stats := { arb.stats with gapBuffered := arb.stats.gapBuffered + 1 } }, out)
  | .gapTooLarge =>
    ({ arb with
        sequencer := arb.sequencer.forceAdvance ev.venue ev.seq
        stats := { arb.stats with
          gapTooLarge := arb.stats.gapTooLarge + 1
          forcedAdvances := arb.stats.forcedAdvances + 1 } }, out)
  | .inOrder => ((arb.accept side ev).replayPending replay ev.venue, { out with accepted := true })

/-- Every recursive call has erased one pending event before, so the recursion
is no deeper than the pending vector is long. -/
def onEventAt : Nat → AbArbiter → FeedSide → BookEvent → AbArbiter × AbArbiterResult
  | 0, arb, side, ev => arb.step (fun inner _ => inner) side ev
  | depth + 1, arb, side, ev =>
    arb.step (fun inner e => (onEventAt depth inner side e).1) side ev

def onEvent (arb : AbArbiter) (side : FeedSide) (ev : BookEvent) : AbArbiter × AbArbiterResult :=
  onEventAt (arb.pending ev.venue).length arb side ev

def drainReady (arb : AbArbiter) : AbArbiter × List BookEvent :=
  ({ arb with ready := [] }, arb.ready)

end AbArbiter
end FeedHandler
