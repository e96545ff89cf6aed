import FeedHandler.Phase2.SequenceTracker
import FeedHandler.Lib.LowerBound

/-! Gap-aware sequencing over all venues and the replay simulation of recovery:
a bounded store of recent arrivals, searched when a gap is reported. -/
namespace FeedHandler

inductive RecoveryReason where
  | gapDetected | gapTooLarge
  deriving DecidableEq, Repr

structure RecoveryRequest where
  venue : Venue
  missing : GapRange
  reason : RecoveryReason
  deriving DecidableEq, Repr

structure SequencerResult where
  update : SequenceUpdate
  recovery : Option RecoveryRequest := none
  deriving DecidableEq, Repr

structure GapAwareSequencer where
  trackers : Venue → SequenceTracker

namespace GapAwareSequencer

def create (gapWindow : Nat) : GapAwareSequencer := ⟨fun _ => .create gapWindow⟩

/-- The recovery handler, if one is set, receives exactly the request returned here. -/
def onSequence (s : GapAwareSequencer) (venue : Venue) (seq : Nat) :
    GapAwareSequencer × SequencerResult :=
  let answer := (s.trackers venue).onSequence seq
  let recovery := answer.2.missingRange.map fun missing =>
    { venue := venue
      missing := missing
      reason := if answer.2.status = .gapTooLarge then .gapTooLarge else .gapDetected }
  (⟨Function.update s.trackers venue answer.1⟩, ⟨answer.2, recovery⟩)

def forceAdvance (s : GapAwareSequencer) (venue : Venue) (newNext : Nat) : GapAwareSequencer :=
  ⟨Function.update s.trackers venue ((s.trackers venue).forceAdvance newNext)⟩

def nextExpected (s : GapAwareSequencer) (venue : Venue) : Nat :=
  (s.trackers venue).nextExpected

end GapAwareSequencer

structure ReplayRecoveryStore where
  maxEventsPerVenue : Nat := 512
  byVenue : Venue → List BookEvent := fun _ => []

namespace ReplayRecoveryStore

/-- Append, then pop from the front until the capacity holds. -/
def recordEvent (store : ReplayRecoveryStore) (ev : BookEvent) : ReplayRecoveryStore :=
  let q := store.byVenue ev.venue ++ [ev]
  { store with
    byVenue := Function.update store.byVenue ev.venue (q.drop (q.length - store.maxEventsPerVenue)) }

def evictBefore (store : ReplayRecoveryStore) (venue : Venue) (minSequenceToKeep : Nat) :
    ReplayRecoveryStore :=
  { store with
    byVenue := Function.update store.byVenue venue
      ((store.byVenue venue).dropWhile (fun ev => decide (ev.seq < minSequenceToKeep))) }

/-- Binary search over the queue in arrival order, whether or not it is sorted. -/
def lookup (store : ReplayRecoveryStore) (venue : Venue) (sequence : Nat) : Option BookEvent :=
  let q := store.byVenue venue
  match q[LowerBound.index (fun ev => decide (ev.seq < sequence)) q]? with
  | some ev => if ev.seq = sequence then some ev else none
  | none => none

/-- Whatever the search returns was recorded, under the requested sequence. -/
theorem lookup_some {store : ReplayRecoveryStore} {venue : Venue} {sequence : Nat}
    {ev : BookEvent} (found : store.lookup venue sequence = some ev) :
    ev ∈ store.byVenue venue ∧ ev.seq = sequence := by
  unfold lookup at found
  simp only at found
  split at found
  · next candidate at_index =>
    split at found
    · next same =>
      cases found
      exact ⟨List.mem_of_getElem? at_index, same⟩
    · contradiction
  · contradiction

/-- The search does find an arrival that everything before it undercuts and
nothing after it undercuts. -/
theorem lookup_partition {store : ReplayRecoveryStore} {venue : Venue}
    {older newer : List BookEvent} {ev : BookEvent}
    (shape : store.byVenue venue = older ++ ev :: newer)
    (low : ∀ e ∈ older, e.seq < ev.seq) (high : ∀ e ∈ newer, ev.seq ≤ e.seq) :
    store.lookup venue ev.seq = some ev := by
  have index : LowerBound.index (fun e => decide (e.seq < ev.seq)) (older ++ ev :: newer) =
      older.length := by
    apply LowerBound.index_partition
    · intro e member
      simpa using low e member
    · intro e member
      rcases List.mem_cons.mp member with rfl | later
      · simp
      · simpa using high e later
  simp only [lookup]
  simp only [shape, index]
  simp

theorem mem_recordEvent {store : ReplayRecoveryStore} {ev e : BookEvent} {venue : Venue}
    (member : e ∈ (store.recordEvent ev).byVenue venue) :
    e ∈ store.byVenue venue ∨ (e = ev ∧ venue = ev.venue) := by
  by_cases same : venue = ev.venue
  · subst same
    simp only [recordEvent, Function.update_self] at member
    rcases List.mem_append.mp (List.mem_of_mem_drop member) with old | new
    · exact Or.inl old
    · exact Or.inr ⟨List.mem_singleton.mp new, rfl⟩
  · simp only [recordEvent, Function.update_of_ne same] at member
    exact Or.inl member

end ReplayRecoveryStore

structure ReplayRecoverySimulator where
  pendingRecovered : List BookEvent := []
  requestsTotal : Nat := 0
  recoveredEventsTotal : Nat := 0

namespace ReplayRecoverySimulator

def requestRecovery (sim : ReplayRecoverySimulator) (store : ReplayRecoveryStore)
    (req : RecoveryRequest) : ReplayRecoverySimulator :=
  let counted := { sim with requestsTotal := sim.requestsTotal + 1 }
  match req.reason with
  | .gapTooLarge => counted
  | .gapDetected =>
    let found := (List.range' req.missing.first (req.missing.last + 1 - req.missing.first)).filterMap
      (store.lookup req.venue)
    { counted with
      pendingRecovered := sim.pendingRecovered ++ found
      recoveredEventsTotal := sim.recoveredEventsTotal + found.length }

def drainRecovered (sim : ReplayRecoverySimulator) : ReplayRecoverySimulator × List BookEvent :=
  ({ sim with pendingRecovered := [] }, sim.pendingRecovered)

end ReplayRecoverySimulator
end FeedHandler
