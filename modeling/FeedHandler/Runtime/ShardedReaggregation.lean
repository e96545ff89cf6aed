import FeedHandler.Phase2.PipelineInOrder
import FeedHandler.Runtime.ShardedRuns

/-! The merged CRC of the sharded pipeline. On the fast path the CRC was folded over
the submit order while it was ordered, and an ordered list is its own merge, ties
included; so both paths give the CRC of the one deterministic merge. -/
namespace FeedHandler
open DeterministicMerger (ofVenue merged Less)

namespace Reaggregation

variable {r : Reaggregation}

/-- The fields that `submit` maintains, in terms of the accepted events. -/
structure Tracks (r : Reaggregation) : Prop where
  last : r.lastReaggregatedEvent = r.routedEventsInSubmitOrder.getLast?
  ordered : r.incrementalCrcOrdered = true →
    KWayMerge.Ordered Less r.routedEventsInSubmitOrder
  folded : r.incrementalCrcOrdered = true → r.incrementalReaggregatedCrc =
    r.routedEventsInSubmitOrder.foldl updateCrcFromBookEvent 0

theorem empty_tracks : Tracks {} := ⟨rfl, fun _ => List.Pairwise.nil, fun _ => rfl⟩

/-- One more event keeps an ordered list ordered if it is not below the last one. -/
theorem ordered_append {events : List BookEvent} {ev : BookEvent}
    (ordered : KWayMerge.Ordered Less events) (last : ∀ e ∈ events.getLast?, ¬ Less ev e) :
    KWayMerge.Ordered Less (events ++ [ev]) := by
  induction events using List.reverseRecOn with
  | nil => exact List.pairwise_singleton _ _
  | append_singleton front top _ =>
    have above : ¬ Less ev top := last top (by simp)
    refine List.pairwise_append.mpr ⟨ordered, List.pairwise_singleton _ _, ?_⟩
    intro e member new isNew
    rw [List.mem_singleton.mp isNew]
    rcases List.mem_append.mp member with older | here
    · have below := (List.pairwise_append.mp ordered).2.2 e older top (by simp)
      exact DeterministicMerger.less_weakOrder.notLess e top ev below above
    · rw [List.mem_singleton.mp here]
      exact above

theorem Tracks.accept (tracks : r.Tracks) (ev : BookEvent) : (r.accept ev).Tracks := by
  have kept : (r.accept ev).incrementalCrcOrdered = true →
      r.incrementalCrcOrdered = true ∧ ∀ e ∈ r.routedEventsInSubmitOrder.getLast?, ¬ Less ev e := by
    simp only [Reaggregation.accept, updateIncrementalReaggregationCrc, tracks.last]
    cases newest : r.routedEventsInSubmitOrder.getLast? with
    | none =>
      intro ordered
      exact ⟨ordered, by simp⟩
    | some top =>
      simp only
      split
      · intro absurdity
        cases absurdity
      · next above =>
        intro ordered
        refine ⟨ordered, ?_⟩
        intro e same
        cases same
        exact above
  constructor
  · simp only [Reaggregation.accept, updateIncrementalReaggregationCrc, List.getLast?_append,
      List.getLast?_singleton, Option.some_or]
  · intro ordered
    obtain ⟨before, above⟩ := kept ordered
    exact ordered_append (tracks.ordered before) above
  · intro ordered
    have folded := tracks.folded (kept ordered).1
    simp only [Reaggregation.accept, updateIncrementalReaggregationCrc, List.foldl_append,
      List.foldl_cons, List.foldl_nil, ← folded] at ordered ⊢
    rw [ordered, cond_true]

/-- Whichever path `finalize` takes, it computes the CRC of the merge. -/
theorem Tracks.crc_eq (tracks : r.Tracks) : r.crc =
    (merged 0 r.routedEventsInSubmitOrder).foldl updateCrcFromBookEvent 0 := by
  simp only [crc]
  split
  · next fast =>
    simp only [fastPath, Bool.and_eq_true] at fast
    have same : merged 0 r.routedEventsInSubmitOrder = r.routedEventsInSubmitOrder :=
      DeterministicMerger.merged_unique (KWayMerge.merges_of_ordered
        DeterministicMerger.less_weakOrder (tracks.ordered fast.2))
    rw [same]
    exact tracks.folded fast.2
  · rfl

end Reaggregation

theorem less_unstamped (a b : BookEvent) : Less a.unstamped b.unstamped ↔ Less a b := Iff.rfl

theorem crc_unstamped (crc : UInt32) (events : List BookEvent) :
    (events.map BookEvent.unstamped).foldl updateCrcFromBookEvent crc =
      events.foldl updateCrcFromBookEvent crc := by
  rw [List.foldl_map]
  rfl

/-- The merge does not look at the arrival times. -/
theorem merged_unstamped (capacity : Nat) (events : List BookEvent) :
    merged capacity (events.map BookEvent.unstamped) =
      (merged capacity events).map BookEvent.unstamped := by
  apply DeterministicMerger.merged_unique
  have mapped := (DeterministicMerger.merged_merges capacity events).map less_unstamped
  have parts : (fun v => (ofVenue events v).map BookEvent.unstamped) =
      ofVenue (events.map BookEvent.unstamped) := by
    funext v
    simp only [ofVenue, List.filter_map]
    rfl
  rwa [parts] at mapped

theorem crc_merged_congr {events copies : List BookEvent}
    (same : copies.map BookEvent.unstamped = events.map BookEvent.unstamped) :
    (merged 0 copies).foldl updateCrcFromBookEvent 0 =
      (merged 0 events).foldl updateCrcFromBookEvent 0 := by
  rw [← crc_unstamped 0 (merged 0 copies), ← crc_unstamped 0 (merged 0 events),
    ← merged_unstamped, ← merged_unstamped, same]

/-- The single-pipeline baseline. -/
def deterministicCrcForEvents (events : List BookEvent) : UInt32 :=
  (Pipeline.run 256 0 events).finalize.1.stats.mergedCrc

theorem deterministicCrcForEvents_eq {events : List BookEvent}
    (counted : ∀ v, (ofVenue events v).map BookEvent.seq =
      List.range' 1 (ofVenue events v).length) :
    deterministicCrcForEvents events =
      (merged 0 events).foldl updateCrcFromBookEvent 0 := by
  have step := Pipeline.run_inStep 256 0 (Pipeline.follows_of_counted counted)
  have queues : (Pipeline.run 256 0 events).merger.queues =
      (DeterministicMerger.pushAll 0 events).queues := by
    rw [step.queues, DeterministicMerger.pushAll_queues]
  simp only [deterministicCrcForEvents, Pipeline.finalize, step.unmerged,
    DeterministicMerger.drainAll_congr queues]
  rfl

namespace ShardedPipeline

variable {bits : Nat} {outside : Outside} {cfg : ShardedPipelineConfig} {events : List BookEvent}
  {s s' : ShardedPipeline bits} {turn : Turn}

theorem moved_tracks (tracks : s.reaggregation.Tracks) (moved : Moved outside s turn s') :
    s'.reaggregation.Tracks := by
  cases moved with
  | accept now shard copy workerEv ring phase pushed => exact tracks.accept copy
  | _ => exact tracks

theorem run_tracks (outside : Outside) (cfg : ShardedPipelineConfig) (events : List BookEvent)
    (turns : List Turn) :
    (run outside cfg events turns : ShardedPipeline bits).reaggregation.Tracks :=
  Run.invariant (P := fun s : ShardedPipeline bits => s.reaggregation.Tracks)
    (fun _ turn tracks => moved_tracks tracks (step_moved outside _ turn)) turns
    Reaggregation.empty_tracks

/-- After `finalize` every event of the program has been accepted, in order. -/
theorem Invariant.all_routed (inv : Invariant cfg events s) (returned : s.producer = .done) :
    s.routed.map BookEvent.unstamped = events.map BookEvent.unstamped := by
  have closed : s.inputClosed = true := by rw [inv.shutdown.closed, returned]; rfl
  have submits := inv.flow.submits
  rw [inv.shutdown.emptied closed, returned] at submits
  simpa [ProducerPhase.flight] using submits

/-- The CRC that `finalize` reports is that of the deterministic merge of the submitted events,
and of the single pipeline where each venue counts its sequences from 1. -/
theorem reaggregated_crc_eq_baseline (outside : Outside) (cfg : ShardedPipelineConfig)
    (events : List BookEvent) (turns : List Turn)
    (returned : (run outside cfg events turns : ShardedPipeline bits).producer = .done) :
    (run outside cfg events turns : ShardedPipeline bits).stats.reaggregatedCrc =
      (merged 0 events).foldl updateCrcFromBookEvent 0 ∧
    ((∀ v, (ofVenue events v).map BookEvent.seq = List.range' 1 (ofVenue events v).length) →
      (run outside cfg events turns : ShardedPipeline bits).stats.reaggregatedCrc =
        deterministicCrcForEvents events) := by
  have inv := run_invariant bits outside cfg events turns
  obtain ⟨_, _, reported⟩ := inv.shutdown.done returned
  have merge : (run outside cfg events turns : ShardedPipeline bits).stats.reaggregatedCrc =
      (merged 0 events).foldl updateCrcFromBookEvent 0 := by
    rw [reported, (run_tracks outside cfg events turns).crc_eq]
    exact crc_merged_congr (inv.all_routed returned)
  refine ⟨merge, ?_⟩
  intro counted
  rw [merge, deterministicCrcForEvents_eq counted]

/-- Two events that compare in the reverse of their submit order. -/
def reversedPair : List BookEvent := [{ venue := .iex, sequence := 1 }, { sequence := 1 }]

/-- Submit two events and finalize, with two workers that empty their rings in between. -/
def pairTurns : List Turn := List.replicate 5 (.producer 7) ++ List.replicate 4 (.worker 0) ++
  List.replicate 2 (.worker 1) ++ List.replicate 3 (.producer 8)

theorem reaggregated_crc_eq_baseline_reversed :
    (run (fun table _ _ => (0, table)) { shardCount := 2 } reversedPair pairTurns :
      ShardedPipeline 14).producer = .done ∧
    (run (fun table _ _ => (0, table)) { shardCount := 2 } reversedPair pairTurns :
      ShardedPipeline 14).stats.reaggregatedCrc = deterministicCrcForEvents reversedPair := by
  have returned : (run (fun table _ _ => (0, table)) { shardCount := 2 } reversedPair pairTurns :
      ShardedPipeline 14).producer = .done := by decide
  have counted : ∀ v, (ofVenue reversedPair v).map BookEvent.seq =
      List.range' 1 (ofVenue reversedPair v).length := by
    intro v
    cases v <;> decide
  exact ⟨returned, (reaggregated_crc_eq_baseline _ _ _ _ returned).2 counted⟩

end ShardedPipeline
end FeedHandler
