import FeedHandler.Phase2.AbArbiterRun
import FeedHandler.Phase2.MergeOrder
import FeedHandler.Phase2.PipelineStep

/-! Where events come from. Arbiter, pipeline and merger hand out events they were given and
no others, whatever the sequences, the gaps and what is recovered: a property of all events
that go in is one of all events that come out. -/
namespace FeedHandler

variable {Q : BookEvent → Prop} {ev : BookEvent} {v : Venue}

namespace AbArbiter

variable {arb : AbArbiter} {side : FeedSide} {replay : AbArbiter → BookEvent → AbArbiter}
  {next fuel i : Nat}

/-- The arbiter holds only events with the property. -/
structure Only (Q : BookEvent → Prop) (arb : AbArbiter) : Prop where
  pending : ∀ v, ∀ e ∈ arb.pending v, Q e
  ready : ∀ e ∈ arb.ready, Q e

theorem Only.setPending (only : arb.Only Q) {pend : List BookEvent} (subset : ∀ e ∈ pend, Q e) :
    (arb.setPending v pend).Only Q := by
  refine ⟨fun w e member => ?_, only.ready⟩
  simp only [AbArbiter.setPending, Function.update_apply] at member
  split at member
  · exact subset e member
  · exact only.pending w e member

section Replay

variable (inner : ∀ arb e, Q e → arb.Only Q → (replay arb e).Only Q)
include inner

theorem scanPending_only (only : arb.Only Q) : (scanPending replay v next fuel i arb).Only Q := by
  induction fuel generalizing i arb with
  | zero => exact only
  | succ fuel ih =>
    simp only [scanPending]
    cases found : (arb.pending v)[i]? with
    | none => exact only
    | some e =>
      have mine := only.pending v e (List.mem_of_getElem? found)
      have erased : (arb.setPending v ((arb.pending v).eraseIdx i)).Only Q :=
        only.setPending fun x remains => only.pending v x (List.mem_of_mem_eraseIdx remains)
      simp only
      split
      · exact ih erased
      · split
        · exact ih (inner _ e mine erased)
        · exact ih only

theorem replayPending_only (only : arb.Only Q) : (arb.replayPending replay v).Only Q := by
  simp only [replayPending]
  split
  · exact only
  · exact scanPending_only inner (only.setPending fun e member =>
      only.pending v e ((List.mem_insertionSort _).mp member))

theorem Outcome.only {after : AbArbiter} (outcome : Outcome replay arb side ev after) (mine : Q ev)
    (only : arb.Only Q) : after.Only Q := by
  cases outcome with
  | old => exact ⟨only.pending, only.ready⟩
  | tooLarge => exact ⟨only.pending, only.ready⟩
  | buffered =>
    refine ⟨fun w e member => ?_, only.ready⟩
    simp only [Function.update_apply] at member
    split at member
    · rcases List.mem_append.mp member with old | new
      · exact only.pending _ e old
      · exact List.mem_singleton.mp new ▸ mine
    · exact only.pending w e member
  | inOrder =>
    refine replayPending_only inner ⟨only.pending, fun e member => ?_⟩
    rcases List.mem_append.mp member with old | new
    · exact only.ready e old
    · exact List.mem_singleton.mp new ▸ mine

end Replay

theorem Only.onEventAt (depth : Nat) (only : arb.Only Q) (side : FeedSide) (mine : Q ev) :
    (AbArbiter.onEventAt depth arb side ev).1.Only Q := by
  induction depth generalizing arb ev with
  | zero => exact (step_outcome _ arb side ev).only (fun _ _ _ held => held) mine only
  | succ depth ih =>
    exact (step_outcome _ arb side ev).only (fun _ _ its held => ih held its) mine only

theorem Only.onEvent (only : arb.Only Q) (side : FeedSide) (mine : Q ev) :
    (arb.onEvent side ev).1.Only Q :=
  only.onEventAt _ side mine

end AbArbiter

namespace Pipeline

variable {p : Pipeline} {count seq : Nat}

/-- The pipeline holds only events with the property. -/
structure Only (Q : BookEvent → Prop) (p : Pipeline) : Prop where
  pending : ∀ v k e, (p.pendingByVenue v).find? k = some e → Q e
  queues : ∀ v, ∀ e ∈ p.merger.queues v, Q e
  store : ∀ v, ∀ e ∈ p.recoveryStore.byVenue v, Q e
  recovered : ∀ e ∈ p.recoverySim.pendingRecovered, Q e

theorem create_only (gapWindow capacity : Nat) : (create gapWindow capacity).Only Q where
  pending := by
    intro v k e found
    cases found
  queues := by
    intro v e member
    cases member
  store := by
    intro v e member
    cases member
  recovered := by
    intro e member
    cases member

theorem Only.publish (only : p.Only Q) (mine : Q ev) : (p.publish ev).Only Q := by
  rw [publish_eq]
  refine ⟨only.pending, fun w e member => ?_, only.store, only.recovered⟩
  simp only [DeterministicMerger.push, Function.update_apply] at member
  split at member
  · rcases List.mem_append.mp member with old | new
    · exact only.queues _ e old
    · exact List.mem_singleton.mp new ▸ mine
  · exact only.queues w e member

/-- A venue's buffer may be exchanged for one with events of the property. -/
theorem Only.setPending (only : p.Only Q) {pending : OrderedMap Nat BookEvent}
    (its : ∀ k e, pending.find? k = some e → Q e) :
    ({ p with pendingByVenue := Function.update p.pendingByVenue v pending } : Pipeline).Only
      Q := by
  refine ⟨fun w k e found => ?_, only.queues, only.store, only.recovered⟩
  simp only [Function.update_apply] at found
  split at found
  · exact its k e found
  · exact only.pending w k e found

theorem Only.releasePending (only : p.Only Q) : (Pipeline.releasePending count seq v p).Only Q := by
  induction count generalizing seq p with
  | zero => exact only
  | succ count ih =>
    simp only [Pipeline.releasePending]
    cases found : (p.pendingByVenue v).find? seq with
    | none => exact ih ⟨only.pending, only.queues, only.store, only.recovered⟩
    | some e =>
      refine ih ((only.publish (only.pending v seq e found)).setPending fun k x left => ?_)
      rw [OrderedMap.find?_erase] at left
      split at left
      · cases left
      · exact only.pending v k x left

theorem Only.evictStore (only : p.Only Q) : (p.evictStore v).Only Q := by
  refine ⟨?_, ?_, fun w e member => ?_, ?_⟩
  · rw [evictStore_pending]
    exact only.pending
  · rw [evictStore_merger]
    exact only.queues
  · rw [evictStore_byVenue, Function.update_apply] at member
    split at member
    · exact only.store v e ((keepRecent_suffix _ _).subset member)
    · exact only.store w e member
  · rw [evictStore_sim]
    exact only.recovered

theorem Only.requestRecovery (only : p.Only Q) (req : RecoveryRequest) :
    ({ p with recoverySim := p.recoverySim.requestRecovery p.recoveryStore req } : Pipeline).Only
      Q := by
  refine ⟨only.pending, only.queues, only.store, fun e member => ?_⟩
  simp only [ReplayRecoverySimulator.requestRecovery] at member
  split at member
  · exact only.recovered e member
  · rcases List.mem_append.mp member with old | found
    · exact only.recovered e old
    · obtain ⟨k, _, hit⟩ := List.mem_filterMap.mp found
      exact only.store _ e (ReplayRecoveryStore.lookup_some hit).1

theorem Only.processEvent (only : p.Only Q) (mine : Q ev) : (p.processEvent ev).Only Q := by
  rcases (p.tracker ev.venue).position ev.seq with old | ⟨same, positive⟩ | far | ⟨ahead, near⟩
  · rw [processEvent_old old]
    exact ⟨only.pending, only.queues, only.store, only.recovered⟩
  · rw [processEvent_inOrder same positive]
    refine Only.evictStore (Only.releasePending (Only.publish ?_ mine))
    exact ⟨only.pending, only.queues, only.store, only.recovered⟩
  · rw [processEvent_tooLarge far]
    refine Only.evictStore ⟨fun w k e found => ?_, only.queues, only.store, only.recovered⟩
    simp only [Function.update_apply] at found
    split at found
    · rw [OrderedMap.find?_eraseBelow] at found
      split at found
      · cases found
      · exact only.pending _ k e found
    · exact only.pending w k e found
  · rw [processEvent_buffered ahead near]
    have asked := (only.requestRecovery
      ⟨ev.venue, ⟨(p.tracker ev.venue).nextExpected, ev.seq - 1⟩, .gapDetected⟩).recovered
    refine ⟨fun w k e found => ?_, only.queues, only.store, asked⟩
    simp only [Function.update_apply] at found
    split at found
    · rw [OrderedMap.find?_insert] at found
      split at found
      · cases found
        exact mine
      · exact only.pending _ k e found
    · exact only.pending w k e found

theorem Only.reinject (only : p.Only Q) (mine : Q ev) : (p.reinject ev).Only Q := by
  simp only [Pipeline.reinject]
  split
  · exact only
  · have processed := only.processEvent mine
    exact ⟨processed.pending, processed.queues, processed.store, processed.recovered⟩

theorem Only.record (only : p.Only Q) (mine : Q ev) : (p.record ev).Only Q := by
  refine ⟨only.pending, only.queues, fun w e member => ?_, only.recovered⟩
  rcases ReplayRecoveryStore.mem_recordEvent member with old | ⟨rfl, _⟩
  · exact only.store w e old
  · exact mine

/-- Step lemma. -/
theorem Only.onEvent (only : p.Only Q) (mine : Q ev) : (p.onEvent ev).Only Q := by
  have processed := (only.record mine).processEvent mine
  simp only [Pipeline.onEvent, reinjectRecovered]
  have start : ({ (p.record ev).processEvent ev with
      recoverySim := ((p.record ev).processEvent ev).recoverySim.drainRecovered.1 } :
        Pipeline).Only Q :=
    ⟨processed.pending, processed.queues, processed.store,
      fun e none => absurd none List.not_mem_nil⟩
  exact (Run.along_of_forall _ _ processed.recovered).invariant (P := Only Q)
    (fun _ _ only mine => only.reinject mine) start

/-- Run lemma. -/
theorem Only.run (only : p.Only Q) {events : List BookEvent} (mine : ∀ e ∈ events, Q e) :
    (events.foldl Pipeline.onEvent p).Only Q :=
  (Run.along_of_forall _ _ mine).invariant (P := Only Q)
    (fun _ _ only mine => only.onEvent mine) only

theorem Only.finalize (only : p.Only Q) : ∀ e ∈ p.finalize.2, Q e := by
  intro e member
  obtain ⟨v, queued⟩ := (DeterministicMerger.drainAll_merges p.merger).1.mem member
  exact only.queues v e queued

end Pipeline
end FeedHandler
