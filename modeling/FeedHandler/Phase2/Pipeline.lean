import FeedHandler.Core.Crc32
import FeedHandler.Lib.OrderedMap
import FeedHandler.Phase2.DeterministicMerger
import FeedHandler.Phase2.Recovery

/-! The replay pipeline: arrivals are recorded, sequenced, buffered while a gap is
open, published to the merger in sequence order and finally merged into one
stream. The equations at the end say what one event does in each of the four
sequencing cases; every proof about runs starts from them. -/
namespace FeedHandler

structure PipelineStats where
  accepted : Nat := 0
  droppedPublishOverflow : Nat := 0
  droppedDuplicateOrOld : Nat := 0
  bufferedOutOfOrder : Nat := 0
  droppedGapTooLarge : Nat := 0
  droppedGapTooLargePendingEvicted : Nat := 0
  pendingInconsistency : Nat := 0
  recoveryRequests : Nat := 0
  recoveryReinjected : Nat := 0
  mergedCrc : UInt32 := 0

structure Pipeline where
  recoveryStore : ReplayRecoveryStore
  recoverySim : ReplayRecoverySimulator
  sequencer : GapAwareSequencer
  merger : DeterministicMerger
  pendingByVenue : Venue → OrderedMap Nat BookEvent
  stats : PipelineStats

namespace Pipeline

def recoveryLookbackSlack : Nat := 64

def create (gapWindow perVenueCapacity : Nat) : Pipeline where
  recoveryStore := { maxEventsPerVenue := (gapWindow + recoveryLookbackSlack) % wordSize }
  recoverySim := {}
  sequencer := .create gapWindow
  merger := { perVenueCapacity := perVenueCapacity }
  pendingByVenue := fun _ => .empty
  stats := {}

def publish (p : Pipeline) (ev : BookEvent) : Pipeline :=
  let pushed := p.merger.push ev
  if pushed.2 then
    { p with merger := pushed.1, stats := { p.stats with accepted := p.stats.accepted + 1 } }
  else
    { p with
      merger := pushed.1
      stats := { p.stats with droppedPublishOverflow := p.stats.droppedPublishOverflow + 1 } }

/-- Ask the sequencer; its recovery handler is the simulator over this store. -/
def sequence (p : Pipeline) (venue : Venue) (seq : Nat) : Pipeline × SequencerResult :=
  let answer := p.sequencer.onSequence venue seq
  let sim := match answer.2.recovery with
    | none => p.recoverySim
    | some req => p.recoverySim.requestRecovery p.recoveryStore req
  ({ p with sequencer := answer.1, recoverySim := sim }, answer.2)

def evictPendingBefore (p : Pipeline) (venue : Venue) (seq : Nat) : Pipeline :=
  { p with
    pendingByVenue := Function.update p.pendingByVenue venue
      ((p.pendingByVenue venue).eraseBelow seq) }

/-- Forget recorded arrivals more than the slack behind the expected sequence. -/
def evictStore (p : Pipeline) (venue : Venue) : Pipeline :=
  let next := p.sequencer.nextExpected venue
  if next > recoveryLookbackSlack then
    { p with recoveryStore := p.recoveryStore.evictBefore venue (next - recoveryLookbackSlack) }
  else p

/-- The release loop: publish and erase the buffered event of each released
sequence, counting the ones that are not there. -/
def releasePending : Nat → Nat → Venue → Pipeline → Pipeline
  | 0, _, _, p => p
  | toRelease + 1, seq, venue, p =>
    match (p.pendingByVenue venue).find? seq with
    | none =>
      releasePending toRelease (SequenceTracker.successor seq) venue
        { p with stats := { p.stats with pendingInconsistency := p.stats.pendingInconsistency + 1 } }
    | some ev =>
      let published := p.publish ev
      releasePending toRelease (SequenceTracker.successor seq) venue
        { published with
          pendingByVenue := Function.update published.pendingByVenue venue
            ((published.pendingByVenue venue).erase seq) }

def processEvent (p : Pipeline) (ev : BookEvent) : Pipeline :=
  let result := (p.sequence ev.venue ev.seq).2
  let p := (p.sequence ev.venue ev.seq).1
  match result.update.status with
  | .duplicateOrOld =>
    { p with stats := { p.stats with droppedDuplicateOrOld := p.stats.droppedDuplicateOrOld + 1 } }
  | .gapTooLarge =>
    let p := { p with
      stats := { p.stats with droppedGapTooLarge := p.stats.droppedGapTooLarge + 1 }
      sequencer := p.sequencer.forceAdvance ev.venue ev.seq }
    let before := (p.pendingByVenue ev.venue).size
    let p := p.evictPendingBefore ev.venue ev.seq
    let evicted := before - (p.pendingByVenue ev.venue).size
    let p := { p with
      stats := { p.stats with
        droppedGapTooLargePendingEvicted := p.stats.droppedGapTooLargePendingEvicted + evicted } }
    p.evictStore ev.venue
  | .gapBuffered =>
    { p with
      pendingByVenue := Function.update p.pendingByVenue ev.venue
        ((p.pendingByVenue ev.venue).insert ev.seq ev)
      stats := { p.stats with bufferedOutOfOrder := p.stats.bufferedOutOfOrder + 1 } }
  | .inOrder =>
    let p := p.publish ev
    let toRelease := if result.update.releasedCount > 0 then result.update.releasedCount - 1 else 0
    let p := p.releasePending toRelease (SequenceTracker.successor ev.seq) ev.venue
    p.evictStore ev.venue

/-- A recovered event is processed again unless its sequence is still buffered. -/
def reinject (p : Pipeline) (r : BookEvent) : Pipeline :=
  if ((p.pendingByVenue r.venue).find? r.seq).isSome then p
  else
    let p := p.processEvent r
    { p with stats := { p.stats with recoveryReinjected := p.stats.recoveryReinjected + 1 } }

def record (p : Pipeline) (ev : BookEvent) : Pipeline :=
  { p with recoveryStore := p.recoveryStore.recordEvent ev }

/-- Take the recovered events out of the simulator and reinject them in order. -/
def reinjectRecovered (p : Pipeline) : Pipeline :=
  let drained := p.recoverySim.drainRecovered
  drained.2.foldl reinject { p with recoverySim := drained.1 }

def onEvent (p : Pipeline) (ev : BookEvent) : Pipeline :=
  ((p.record ev).processEvent ev).reinjectRecovered

/-- Drain the merger into the sink, folding the determinism CRC over the stream. -/
def finalize (p : Pipeline) : Pipeline × List BookEvent :=
  let drained := p.merger.drainAll
  ({ p with
      merger := drained.2
      stats := { p.stats with
        mergedCrc := drained.1.foldl updateCrcFromBookEvent p.stats.mergedCrc
        recoveryRequests := p.recoverySim.requestsTotal } },
    drained.1)

/-- A run of `on_event` calls from a fresh pipeline. -/
def run (gapWindow perVenueCapacity : Nat) (events : List BookEvent) : Pipeline :=
  events.foldl onEvent (create gapWindow perVenueCapacity)

variable {p : Pipeline} {ev : BookEvent}

/-- The tracker of one venue, and the sequence it expects next. -/
abbrev tracker (p : Pipeline) (v : Venue) : SequenceTracker := p.sequencer.trackers v

/-- What has been pushed to the merger for one venue and not yet merged. -/
abbrev published (p : Pipeline) (v : Venue) : List BookEvent := p.merger.queues v

theorem publish_eq (p : Pipeline) (ev : BookEvent) : p.publish ev =
    { p with
      merger := (p.merger.push ev).1
      stats := { p.stats with accepted := p.stats.accepted + 1 } } := rfl

theorem processEvent_old (old : ev.seq = 0 ∨ ev.seq < (p.tracker ev.venue).nextExpected) :
    p.processEvent ev =
      { p with
        stats := { p.stats with droppedDuplicateOrOld := p.stats.droppedDuplicateOrOld + 1 } } := by
  simp only [processEvent, sequence, GapAwareSequencer.onSequence,
    SequenceTracker.onSequence_old old, Option.map_none, Function.update_eq_self]

theorem processEvent_tooLarge
    (far : (p.tracker ev.venue).nextExpected + (p.tracker ev.venue).gapWindow < ev.seq) :
    p.processEvent ev =
      Pipeline.evictStore
        { p with
          sequencer := p.sequencer.forceAdvance ev.venue ev.seq
          recoverySim := { p.recoverySim with requestsTotal := p.recoverySim.requestsTotal + 1 }
          pendingByVenue := Function.update p.pendingByVenue ev.venue
            ((p.pendingByVenue ev.venue).eraseBelow ev.seq)
          stats := { p.stats with
            droppedGapTooLarge := p.stats.droppedGapTooLarge + 1
            droppedGapTooLargePendingEvicted := p.stats.droppedGapTooLargePendingEvicted +
              ((p.pendingByVenue ev.venue).size -
                ((p.pendingByVenue ev.venue).eraseBelow ev.seq).size) } } ev.venue := by
  simp only [processEvent, sequence, GapAwareSequencer.onSequence,
    SequenceTracker.onSequence_tooLarge far, Option.map_some, Function.update_eq_self, if_true,
    ReplayRecoverySimulator.requestRecovery, evictPendingBefore, Function.update_self]

theorem processEvent_buffered (ahead : (p.tracker ev.venue).nextExpected < ev.seq)
    (near : ev.seq ≤ (p.tracker ev.venue).nextExpected + (p.tracker ev.venue).gapWindow) :
    p.processEvent ev =
      { p with
        sequencer := ⟨Function.update p.sequencer.trackers ev.venue
          ((p.tracker ev.venue).marked ev.seq)⟩
        recoverySim := p.recoverySim.requestRecovery p.recoveryStore
          ⟨ev.venue, ⟨(p.tracker ev.venue).nextExpected, ev.seq - 1⟩, .gapDetected⟩
        pendingByVenue := Function.update p.pendingByVenue ev.venue
          ((p.pendingByVenue ev.venue).insert ev.seq ev)
        stats := { p.stats with bufferedOutOfOrder := p.stats.bufferedOutOfOrder + 1 } } := by
  simp only [processEvent, sequence, GapAwareSequencer.onSequence,
    SequenceTracker.onSequence_buffered ahead near, Option.map_some, reduceCtorEq, if_false]

theorem processEvent_inOrder (same : ev.seq = (p.tracker ev.venue).nextExpected)
    (positive : 0 < ev.seq) :
    p.processEvent ev =
      Pipeline.evictStore
        (Pipeline.releasePending (p.tracker ev.venue).released.2.1
          (SequenceTracker.successor ev.seq) ev.venue
          (Pipeline.publish
            { p with
              sequencer := ⟨Function.update p.sequencer.trackers ev.venue
                (p.tracker ev.venue).advanced⟩ } ev)) ev.venue := by
  have answer := SequenceTracker.onSequence_inOrder (same ▸ positive)
  rw [← same] at answer
  simp only [processEvent, sequence, GapAwareSequencer.onSequence, answer, Option.map_none,
    Nat.zero_lt_succ, gt_iff_lt, if_true, Nat.add_sub_cancel]

end Pipeline
end FeedHandler
