import FeedHandler.Phase2.MergeOrder
import FeedHandler.Phase2.PipelineStep

/-! A pipeline fed in sequence order, venue by venue from 1 on: nothing is buffered,
dropped or recovered, and the merger holds exactly what was fed. -/
namespace FeedHandler.Pipeline
open DeterministicMerger (ofVenue)

variable {p : Pipeline} {ev : BookEvent} {past : List BookEvent} {v : Venue}

/-- The event has the sequence that follows those of its venue so far. -/
def Follows (past : List BookEvent) (ev : BookEvent) : Prop :=
  ev.seq = (ofVenue past ev.venue).length + 1

/-- Every one of `n` events was accepted, with no other sequencing status. -/
structure AllAccepted (stats : PipelineStats) (n : Nat) : Prop where
  accepted : stats.accepted = n
  duplicates : stats.droppedDuplicateOrOld = 0
  buffered : stats.bufferedOutOfOrder = 0
  tooLarge : stats.droppedGapTooLarge = 0
  overflow : stats.droppedPublishOverflow = 0

/-- The state after `past`, fed in sequence order. The expectation is stated as long as
the next sequence is a 64-bit word. -/
structure InStep (past : List BookEvent) (p : Pipeline) : Prop where
  next : ∀ v, (ofVenue past v).length + 1 < wordSize →
    (p.tracker v).nextExpected = (ofVenue past v).length + 1
  clear : ∀ v, (p.tracker v).bufferedTags.Clear
  pending : ∀ v, p.pendingByVenue v = .empty
  idle : p.recoverySim.pendingRecovered = []
  queues : p.merger.queues = ofVenue past
  stats : AllAccepted p.stats past.length
  unmerged : p.stats.mergedCrc = 0

theorem create_inStep (gapWindow capacity : Nat) : InStep [] (create gapWindow capacity) where
  next _ _ := rfl
  clear _ _ := rfl
  pending _ := rfl
  idle := rfl
  queues := rfl
  stats := ⟨rfl, rfl, rfl, rfl, rfl⟩
  unmerged := rfl

/-- The release loop over an empty buffer only counts what it misses. -/
theorem releasePending_empty (count seq : Nat) (empty : p.pendingByVenue v = .empty) :
    releasePending count seq v p = { p with stats := { p.stats with
      pendingInconsistency := p.stats.pendingInconsistency + count } } := by
  induction count generalizing seq p with
  | zero => rfl
  | succ count ih =>
    have missing : (p.pendingByVenue v).find? seq = none := by
      rw [empty]
      rfl
    have rest := ih (p := missPending p) (SequenceTracker.successor seq) empty
    simp only [releasePending, missing]
    simp only [missPending, Nat.add_assoc, Nat.add_comm 1 count] at rest
    exact rest

/-- Effect of an in-order event while nothing of its venue is buffered. -/
structure Fed (p : Pipeline) (ev : BookEvent) (q : Pipeline) : Prop where
  trackers : q.sequencer.trackers =
    Function.update p.sequencer.trackers ev.venue (p.tracker ev.venue).advanced
  queues : q.merger.queues =
    Function.update p.merger.queues ev.venue (p.merger.queues ev.venue ++ [ev])
  pending : q.pendingByVenue = p.pendingByVenue
  sim : q.recoverySim = p.recoverySim
  stats : ∃ missed, q.stats = { p.stats with
    accepted := p.stats.accepted + 1
    pendingInconsistency := p.stats.pendingInconsistency + missed }

theorem onEvent_fed (same : ev.seq = (p.tracker ev.venue).nextExpected) (positive : 0 < ev.seq)
    (empty : p.pendingByVenue ev.venue = .empty) (idle : p.recoverySim.pendingRecovered = []) :
    Fed p ev (p.onEvent ev) := by
  have processed := processEvent_inOrder (p := p.record ev) same positive
  rw [releasePending_empty _ _ (by exact empty)] at processed
  simp only [Pipeline.onEvent, processed]
  rw [reinjectRecovered_nil (by rw [evictStore_sim]; exact idle)]
  constructor
  · rw [evictStore_sequencer]
    rfl
  · rw [evictStore_merger]
    rfl
  · rw [evictStore_pending]
    rfl
  · rw [evictStore_sim]
    rfl
  · rw [evictStore_stats]
    exact ⟨_, rfl⟩

theorem ofVenue_append (past : List BookEvent) (ev : BookEvent) : ofVenue (past ++ [ev]) =
    Function.update (ofVenue past) ev.venue (ofVenue past ev.venue ++ [ev]) := by
  funext w
  by_cases venue : w = ev.venue
  · subst venue
    simp [ofVenue]
  · have other : ¬ ev.venue = w := fun equal => venue equal.symm
    simp [ofVenue, Function.update_of_ne venue, other]

theorem InStep.tracker_advanced (step : InStep past p) (v : Venue)
    (room : (ofVenue past v).length + 2 < wordSize) :
    (p.tracker v).advanced.nextExpected = (ofVenue past v).length + 2 := by
  have expected := step.next v (by omega)
  have absent : ¬ (p.tracker v).Buffered ((p.tracker v).nextExpected + 1) :=
    (step.clear v).not_holds
  simp only [SequenceTracker.advanced]
  rw [SequenceTracker.released_quiet (by omega) absent, expected]

/-- Feeding the next sequence of a venue. -/
theorem InStep.onEvent (step : InStep past p) (follows : Follows past ev) :
    InStep (past ++ [ev]) (p.onEvent ev) := by
  have expected := step.next ev.venue (by rw [← follows]; exact ev.seq_lt)
  have fed : Fed p ev (p.onEvent ev) := by
    apply onEvent_fed (follows.trans expected.symm) _ (step.pending ev.venue) step.idle
    rw [follows]
    omega
  constructor
  · intro w room
    rw [ofVenue_append] at room ⊢
    simp only [Pipeline.tracker, fed.trackers]
    by_cases venue : w = ev.venue
    · subst venue
      simp only [Function.update_self, List.length_append, List.length_singleton] at room ⊢
      exact step.tracker_advanced ev.venue room
    · simp only [Function.update_of_ne venue] at room ⊢
      exact step.next w room
  · intro w
    simp only [Pipeline.tracker, fed.trackers]
    by_cases venue : w = ev.venue
    · subst venue
      rw [Function.update_self]
      exact (step.clear ev.venue).popRun _ _
    · rw [Function.update_of_ne venue]
      exact step.clear w
  · intro w
    rw [fed.pending]
    exact step.pending w
  · rw [fed.sim]
    exact step.idle
  · rw [fed.queues, ofVenue_append, step.queues]
  · obtain ⟨missed, stats⟩ := fed.stats
    obtain ⟨accepted, duplicates, buffered, tooLarge, overflow⟩ := step.stats
    rw [stats, List.length_append]
    exact ⟨congrArg (· + 1) accepted, duplicates, buffered, tooLarge, overflow⟩
  · obtain ⟨missed, stats⟩ := fed.stats
    rw [stats]
    exact step.unmerged

/-- Sequences counted from 1 follow one another at every initial part. -/
theorem follows_of_counted {events : List BookEvent}
    (counted : ∀ v, (ofVenue events v).map BookEvent.seq =
      List.range' 1 (ofVenue events v).length) :
    ∀ front ev, front ++ [ev] <+: events → Follows front ev := by
  rintro front ev ⟨rest, split⟩
  have whole : ofVenue events ev.venue =
      ofVenue front ev.venue ++ ev :: ofVenue rest ev.venue := by
    rw [← split]
    simp [ofVenue]
  have sequence := congrArg (fun l => l[(ofVenue front ev.venue).length]?) (counted ev.venue)
  simp only [whole, List.map_append, List.map_cons] at sequence
  rw [List.getElem?_append_right (by simp), List.getElem?_range' (by simp)] at sequence
  simp only [List.length_map, Nat.sub_self, List.getElem?_cons_zero, Option.some.injEq] at sequence
  simp only [Follows]
  omega

/-- Feeding a whole list in sequence order. -/
theorem run_inStep (gapWindow capacity : Nat) {events : List BookEvent}
    (follows : ∀ front ev, front ++ [ev] <+: events → Follows front ev) :
    InStep events (run gapWindow capacity events) := by
  induction events using List.reverseRecOn with
  | nil => exact create_inStep gapWindow capacity
  | append_singleton front ev ih =>
    have before := ih (fun part e inside =>
      follows part e (inside.trans (List.prefix_append front [ev])))
    simp only [run, List.foldl_append, List.foldl_cons, List.foldl_nil]
    exact before.onEvent (follows front ev (List.prefix_refl _))

end FeedHandler.Pipeline
