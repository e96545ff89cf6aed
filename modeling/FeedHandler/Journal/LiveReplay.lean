import FeedHandler.Phase2.AbArbiterRun
import FeedHandler.Phase2.PipelineArrival

/-! Live ingest against replay. Live, an arrival is journaled, arbitrated and, once
handed out, sequenced by a pipeline that is finalized after every event; in
replay the journal goes through one pipeline alone. The two agree as long as the
arbiter has nothing to release: what it releases it loses. -/
namespace FeedHandler

/-- The live path: the journal, the arbiter, the pipeline behind it and what the
pipeline has delivered to the sink. -/
structure LiveIngest where
  journal : List BookEvent := []
  arb : AbArbiter
  pipeline : Pipeline
  sink : List BookEvent := []

namespace LiveIngest

def create (gapWindow perVenueCapacity : Nat) : LiveIngest where
  arb := .create gapWindow
  pipeline := .create gapWindow perVenueCapacity

/-- `on_event` and `finalize` for one event that the arbiter has handed out. -/
def deliver (s : LiveIngest) (r : BookEvent) : LiveIngest :=
  let merged := (s.pipeline.onEvent r).finalize
  { s with pipeline := merged.1, sink := s.sink ++ merged.2 }

/-- The function behind the journaling sink. -/
def downstream (s : LiveIngest) (side : FeedSide) (ev : BookEvent) : LiveIngest :=
  let arb := (s.arb.onEvent side ev).1
  arb.drainReady.2.foldl deliver { s with arb := arb.drainReady.1 }

/-- `JournalingIngestSink::operator()`: append to the journal, then pass on. -/
def ingest (s : LiveIngest) (arrival : FeedSide × BookEvent) : LiveIngest :=
  downstream { s with journal := s.journal ++ [arrival.2] } arrival.1 arrival.2

def run (gapWindow perVenueCapacity : Nat) (arrivals : List (FeedSide × BookEvent)) : LiveIngest :=
  arrivals.foldl ingest (create gapWindow perVenueCapacity)

end LiveIngest

namespace Pipeline

variable {p : Pipeline} {ev : BookEvent} {v : Venue}

/-- Effect of an in-order event whose successor is not buffered. -/
structure Passed (p : Pipeline) (ev : BookEvent) (q : Pipeline) : Prop where
  trackers : q.sequencer.trackers = Function.update p.sequencer.trackers ev.venue
    { p.tracker ev.venue with nextExpected := ev.seq + 1 }
  queues : q.merger.queues =
    Function.update p.merger.queues ev.venue (p.merger.queues ev.venue ++ [ev])
  pending : q.pendingByVenue = p.pendingByVenue
  store : ∀ e ∈ q.recoveryStore.byVenue ev.venue, e = ev ∨ e ∈ p.recoveryStore.byVenue ev.venue
  sim : q.recoverySim = p.recoverySim
  crc : q.stats.mergedCrc = p.stats.mergedCrc

theorem onEvent_passed (same : ev.seq = (p.tracker ev.venue).nextExpected) (positive : 0 < ev.seq)
    (room : ev.seq + 1 < wordSize) (absent : ¬ (p.tracker ev.venue).Buffered (ev.seq + 1))
    (idle : p.recoverySim.pendingRecovered = []) : Passed p ev (p.onEvent ev) := by
  have quiet := SequenceTracker.released_quiet (same ▸ room) (same ▸ absent)
  have advanced : (p.tracker ev.venue).advanced =
      { p.tracker ev.venue with nextExpected := ev.seq + 1 } := by
    simp only [SequenceTracker.advanced, quiet, same]
  have processed := processEvent_inOrder (p := p.record ev) same positive
  have tracker : (p.record ev).tracker ev.venue = p.tracker ev.venue := rfl
  rw [tracker, quiet, advanced] at processed
  simp only [releasePending] at processed
  simp only [Pipeline.onEvent]
  rw [processed, reinjectRecovered_nil (by rw [evictStore_sim]; exact idle)]
  constructor
  · rw [evictStore_sequencer]
    rfl
  · rw [evictStore_merger]
    rfl
  · rw [evictStore_pending]
    rfl
  · intro e member
    rw [evictStore_byVenue, Function.update_self] at member
    have recorded := (keepRecent_suffix _ _).mem member
    rcases ReplayRecoveryStore.mem_recordEvent recorded with old | ⟨rfl, _⟩
    · exact Or.inr old
    · exact Or.inl rfl
  · rw [evictStore_sim]
    rfl
  · rw [evictStore_stats]
    rfl

theorem Passed.tracker {q : Pipeline} (passed : Passed p ev q) :
    q.tracker ev.venue = { p.tracker ev.venue with nextExpected := ev.seq + 1 } := by
  simp only [Pipeline.tracker, passed.trackers, Function.update_self]

/-- Finalizing after an event passed through empty queues hands out that event. -/
theorem Passed.finalized {q : Pipeline} (passed : Passed p ev q) (empty : ∀ w, p.published w = []) :
    q.finalize.2 = [ev] ∧ ∀ w, q.finalize.1.published w = [] := by
  have queue : q.published ev.venue = [ev] := by
    simp only [Pipeline.published, passed.queues, Function.update_self]
    exact congrArg (· ++ [ev]) (empty ev.venue)
  have single : q.merger.Single ev.venue := by
    intro w other
    rw [passed.queues, Function.update_of_ne other]
    exact empty w
  obtain ⟨drained, drainedQueues⟩ := single.drainAll
  exact ⟨drained.trans queue, drainedQueues⟩

/-- Recovery finds nothing to reinject where every recorded event that is not behind
its venue is buffered. -/
theorem onEvent_marked (ahead : (p.tracker ev.venue).nextExpected < ev.seq)
    (near : ev.seq ≤ (p.tracker ev.venue).nextExpected + (p.tracker ev.venue).gapWindow)
    (idle : p.recoverySim.pendingRecovered = [])
    (held : ∀ e ∈ p.recoveryStore.byVenue ev.venue, e.venue = ev.venue ∧
      ((p.tracker ev.venue).nextExpected ≤ e.seq →
        ((p.pendingByVenue ev.venue).find? e.seq).isSome)) :
    p.onEvent ev =
      { (p.record ev).processEvent ev with
        recoverySim := ((p.record ev).processEvent ev).recoverySim.drainRecovered.1 } := by
  apply reinjectRecovered_held
  intro r member
  rw [processEvent_buffered (p := p.record ev) ahead near] at member ⊢
  simp only [ReplayRecoverySimulator.requestRecovery, record, idle, List.nil_append] at member
  obtain ⟨k, inRange, found⟩ := List.mem_filterMap.mp member
  obtain ⟨stored, rfl⟩ := ReplayRecoveryStore.lookup_some found
  have low := (List.mem_range'_1.mp inRange).1
  rcases ReplayRecoveryStore.mem_recordEvent stored with old | ⟨rfl, _⟩
  · obtain ⟨venue, present⟩ := held r old
    rw [venue]
    simp only [Function.update_self, OrderedMap.find?_insert]
    split
    · rfl
    · exact present low
  · simp

end Pipeline

namespace LiveIngest

variable {s : LiveIngest} {p : Pipeline} {ev : BookEvent} {v : Venue} {side : FeedSide}

/-- The arrival is not beyond the window of its venue, and if it is the expected one
then it is not the last sequence and its successor has not been buffered. -/
def Quiet (s : LiveIngest) (arrival : FeedSide × BookEvent) : Prop :=
  arrival.2.seq ≤ (s.arb.tracker arrival.2.venue).nextExpected +
      (s.arb.tracker arrival.2.venue).gapWindow ∧
    (arrival.2.seq = (s.arb.tracker arrival.2.venue).nextExpected →
      arrival.2.seq + 1 < wordSize ∧
      ¬ (s.arb.tracker arrival.2.venue).Buffered (arrival.2.seq + 1) ∧
      ∀ e ∈ s.arb.pending arrival.2.venue, e.seq ≠ arrival.2.seq + 1)

instance (s : LiveIngest) (arrival : FeedSide × BookEvent) : Decidable (s.Quiet arrival) :=
  inferInstanceAs (Decidable (_ ∧ (_ → _ ∧ _ ∧ ∀ e ∈ _, _)))

/-- The live path and a replay pipeline that have taken the same arrivals of `v`. -/
structure Agrees (v : Venue) (s : LiveIngest) (p : Pipeline) : Prop where
  tracker : p.tracker v = s.arb.tracker v
  positive : 0 < (s.arb.tracker v).nextExpected
  ready : s.arb.ready = []
  expected : (s.pipeline.tracker v).nextExpected = (s.arb.tracker v).nextExpected
  ring : ∀ k, ¬ (s.pipeline.tracker v).Buffered k
  merged : ∀ w, s.pipeline.published w = []
  liveIdle : s.pipeline.recoverySim.pendingRecovered = []
  idle : p.recoverySim.pendingRecovered = []
  held : ∀ e ∈ p.recoveryStore.byVenue v, e.venue = v ∧
    ((p.tracker v).nextExpected ≤ e.seq → ((p.pendingByVenue v).find? e.seq).isSome)
  others : p.merger.Single v
  sink : p.published v = s.sink
  crc : s.pipeline.stats.mergedCrc = s.sink.foldl updateCrcFromBookEvent 0
  unmerged : p.stats.mergedCrc = 0

theorem create_agrees (gapWindow capacity replayCapacity : Nat) (v : Venue) :
    Agrees v (create gapWindow capacity) (.create gapWindow replayCapacity) where
  tracker := rfl
  positive := Nat.one_pos
  ready := rfl
  expected := rfl
  ring := fun _ held => absurd held TagRing.holds_cleared
  merged := fun _ => rfl
  liveIdle := rfl
  idle := rfl
  held := by
    intro e member
    cases member
  others := fun _ _ => rfl
  sink := rfl
  crc := rfl
  unmerged := rfl

theorem ingest_silent (ready : (s.arb.onEvent side ev).1.ready = []) :
    s.ingest (side, ev) =
      { s with
        journal := s.journal ++ [ev]
        arb := (s.arb.onEvent side ev).1.drainReady.1 } := by
  simp only [ingest, downstream, AbArbiter.drainReady, ready, List.foldl_nil]

theorem ingest_single (ready : (s.arb.onEvent side ev).1.ready = [ev]) :
    s.ingest (side, ev) =
      deliver { s with
        journal := s.journal ++ [ev]
        arb := (s.arb.onEvent side ev).1.drainReady.1 } ev := by
  simp only [ingest, downstream, AbArbiter.drainReady, ready, List.foldl_cons, List.foldl_nil]

/-- An arrival that hands out nothing leaves the live path where it was. -/
theorem Agrees.silent (agrees : Agrees ev.venue s p) {q : Pipeline}
    (ready : (s.arb.onEvent side ev).1.ready = [])
    (same : ((s.arb.onEvent side ev).1.tracker ev.venue).nextExpected =
      (s.arb.tracker ev.venue).nextExpected)
    (tracker : q.tracker ev.venue = (s.arb.onEvent side ev).1.tracker ev.venue)
    (idle : q.recoverySim.pendingRecovered = [])
    (held : ∀ e ∈ q.recoveryStore.byVenue ev.venue, e.venue = ev.venue ∧
      ((p.tracker ev.venue).nextExpected ≤ e.seq →
        ((q.pendingByVenue ev.venue).find? e.seq).isSome))
    (queues : q.merger = p.merger) (unmerged : q.stats.mergedCrc = p.stats.mergedCrc) :
    Agrees ev.venue (s.ingest (side, ev)) q := by
  have next : (q.tracker ev.venue).nextExpected = (p.tracker ev.venue).nextExpected := by
    rw [tracker, same, agrees.tracker]
  rw [ingest_silent ready]
  constructor
  · exact tracker
  · exact same.symm ▸ agrees.positive
  · rfl
  · exact agrees.expected.trans same.symm
  · exact agrees.ring
  · exact agrees.merged
  · exact agrees.liveIdle
  · exact idle
  · rw [next]
    exact held
  · rw [queues]
    exact agrees.others
  · rw [Pipeline.published, queues]
    exact agrees.sink
  · exact agrees.crc
  · exact unmerged.trans agrees.unmerged

/-- The arbiter's side of a quiet arrival. -/
theorem Agrees.arbitrate (agrees : Agrees ev.venue s p) (quiet : s.Quiet (side, ev)) :
    (s.arb.onEvent side ev).1.tracker ev.venue =
        ((s.arb.tracker ev.venue).onSequence ev.seq).1 ∧
      (s.arb.onEvent side ev).1.ready =
        if ev.seq = (s.arb.tracker ev.venue).nextExpected then [ev] else [] := by
  have absent : ev.seq = (s.arb.tracker ev.venue).nextExpected →
      ∀ e ∈ s.arb.pending ev.venue,
        e.seq ≠ (s.arb.tracker ev.venue).advanced.nextExpected := by
    intro same e member
    obtain ⟨room, free, pending⟩ := quiet.2 same
    have released := SequenceTracker.released_quiet (same ▸ room) (same ▸ free)
    simp only [SequenceTracker.advanced, released, ← same]
    exact pending e member
  obtain ⟨tracker, ready, _⟩ :=
    AbArbiter.onEvent_quiet side agrees.positive quiet.1 absent
  rw [agrees.ready, List.nil_append] at ready
  exact ⟨tracker, ready⟩

theorem Agrees.held_record (agrees : Agrees ev.venue s p) {e : BookEvent}
    (member : e ∈ (p.record ev).recoveryStore.byVenue ev.venue) :
    e = ev ∨ (e.venue = ev.venue ∧ ((p.tracker ev.venue).nextExpected ≤ e.seq →
      ((p.pendingByVenue ev.venue).find? e.seq).isSome)) := by
  rcases ReplayRecoveryStore.mem_recordEvent member with old | ⟨rfl, _⟩
  · exact Or.inr (agrees.held e old)
  · exact Or.inl rfl

theorem Agrees.old (agrees : Agrees ev.venue s p) (quiet : s.Quiet (side, ev))
    (behind : ev.seq = 0 ∨ ev.seq < (s.arb.tracker ev.venue).nextExpected) :
    Agrees ev.venue (s.ingest (side, ev)) (p.onEvent ev) := by
  have positive := agrees.positive
  obtain ⟨tracker, ready⟩ := agrees.arbitrate quiet
  rw [SequenceTracker.onSequence_old behind] at tracker
  rw [if_neg (by omega)] at ready
  have processed := Pipeline.processEvent_old (p := p.record ev)
    (agrees.tracker.symm ▸ behind)
  have shape := Pipeline.reinjectRecovered_nil
    (p := (p.record ev).processEvent ev) (by rw [processed]; exact agrees.idle)
  simp only [Pipeline.onEvent]
  rw [shape, processed]
  refine agrees.silent ready (congrArg _ tracker) (agrees.tracker.trans tracker.symm) agrees.idle
    ?_ rfl rfl
  intro e member
  rcases agrees.held_record member with rfl | old
  · refine ⟨rfl, fun ahead => ?_⟩
    rw [agrees.tracker] at ahead
    omega
  · exact old

theorem Agrees.buffered (agrees : Agrees ev.venue s p) (quiet : s.Quiet (side, ev))
    (ahead : (s.arb.tracker ev.venue).nextExpected < ev.seq) :
    Agrees ev.venue (s.ingest (side, ev)) (p.onEvent ev) := by
  have near := quiet.1
  obtain ⟨tracker, ready⟩ := agrees.arbitrate quiet
  rw [SequenceTracker.onSequence_buffered ahead near] at tracker
  rw [if_neg (by omega)] at ready
  rw [← agrees.tracker] at ahead near
  have processed := Pipeline.processEvent_buffered (p := p.record ev) ahead near
  rw [Pipeline.onEvent_marked ahead near agrees.idle agrees.held, processed]
  refine agrees.silent ready (by rw [tracker]; rfl) ?_ rfl ?_ rfl rfl
  · rw [tracker, ← agrees.tracker]
    exact Function.update_self _ _ _
  · intro e member
    simp only [Function.update_self, OrderedMap.find?_insert]
    rcases agrees.held_record member with rfl | ⟨venue, held⟩
    · exact ⟨rfl, fun _ => by simp⟩
    · refine ⟨venue, fun notBehind => ?_⟩
      split
      · rfl
      · exact held notBehind

theorem Agrees.inOrder (agrees : Agrees ev.venue s p) (quiet : s.Quiet (side, ev))
    (same : ev.seq = (s.arb.tracker ev.venue).nextExpected) :
    Agrees ev.venue (s.ingest (side, ev)) (p.onEvent ev) := by
  have positive : 0 < ev.seq := same ▸ agrees.positive
  obtain ⟨room, free, _⟩ := quiet.2 same
  obtain ⟨tracker, ready⟩ := agrees.arbitrate quiet
  rw [if_pos same] at ready
  have live := Pipeline.onEvent_passed (p := s.pipeline) (same.trans agrees.expected.symm) positive
    room (agrees.ring _) agrees.liveIdle
  have replay := Pipeline.onEvent_passed (p := p) (agrees.tracker.symm ▸ same) positive room
    (agrees.tracker.symm ▸ free) agrees.idle
  obtain ⟨delivered, empty⟩ := live.finalized agrees.merged
  have after : (s.arb.onEvent side ev).1.tracker ev.venue =
      { s.arb.tracker ev.venue with nextExpected := ev.seq + 1 } := by
    have quietly := SequenceTracker.released_quiet (same ▸ room) (same ▸ free)
    rw [tracker, same, SequenceTracker.onSequence_inOrder agrees.positive]
    simp only [SequenceTracker.advanced, quietly]
  rw [ingest_single ready]
  constructor
  · rw [replay.tracker, agrees.tracker]
    exact after.symm
  · change 0 < ((s.arb.onEvent side ev).1.tracker ev.venue).nextExpected
    rw [after]
    exact Nat.succ_pos _
  · rfl
  · change ((s.pipeline.onEvent ev).tracker ev.venue).nextExpected =
      ((s.arb.onEvent side ev).1.tracker ev.venue).nextExpected
    rw [live.tracker, after]
  · intro k
    change ¬ ((s.pipeline.onEvent ev).tracker ev.venue).Buffered k
    rw [live.tracker]
    exact agrees.ring k
  · exact empty
  · change (s.pipeline.onEvent ev).recoverySim.pendingRecovered = []
    rw [live.sim]
    exact agrees.liveIdle
  · rw [replay.sim]
    exact agrees.idle
  · intro e member
    rw [replay.tracker, replay.pending]
    rcases replay.store e member with rfl | old
    · exact ⟨rfl, fun ahead => absurd ahead (by simp)⟩
    · obtain ⟨venue, held⟩ := agrees.held e old
      refine ⟨venue, fun ahead => held ?_⟩
      simp only at ahead
      rw [agrees.tracker, ← same]
      omega
  · intro w other
    rw [replay.queues, Function.update_of_ne other]
    exact agrees.others w other
  · simp only [Pipeline.published, replay.queues, Function.update_self, deliver, delivered]
    rw [← agrees.sink]
  · simp only [deliver, delivered, List.foldl_append, List.foldl_cons, List.foldl_nil,
      ← agrees.crc, ← live.crc]
    change (s.pipeline.onEvent ev).finalize.2.foldl updateCrcFromBookEvent _ = _
    rw [delivered]
    rfl
  · rw [replay.crc]
    exact agrees.unmerged

/-- Step lemma: a quiet arrival keeps the two paths in agreement. -/
theorem Agrees.ingest (agrees : Agrees ev.venue s p) (quiet : s.Quiet (side, ev)) :
    Agrees ev.venue (s.ingest (side, ev)) (p.onEvent ev) := by
  have near := quiet.1
  rcases (s.arb.tracker ev.venue).position ev.seq with old | ⟨same, _⟩ | far | ⟨ahead, _⟩
  · exact agrees.old quiet old
  · exact agrees.inOrder quiet same
  · simp only at near
    omega
  · exact agrees.buffered quiet ahead

theorem deliver_journal (s : LiveIngest) (rs : List BookEvent) :
    (rs.foldl deliver s).journal = s.journal := by
  apply Run.invariant (P := fun t : LiveIngest => t.journal = s.journal) _ rs rfl
  exact fun t r same => same

theorem ingest_journal (s : LiveIngest) (arrival : FeedSide × BookEvent) :
    (s.ingest arrival).journal = s.journal ++ [arrival.2] := deliver_journal _ _

/-- Live and replay deliver the same merged events and the same determinism checksum
in every run of one venue whose arrivals are quiet. -/
theorem replay_agrees_with_live (gapWindow capacity replayCapacity : Nat) (v : Venue)
    (arrivals : List (FeedSide × BookEvent)) (single : ∀ arrival ∈ arrivals, arrival.2.venue = v)
    (quiet : Run.Along ingest Quiet (create gapWindow capacity) arrivals) :
    let live := run gapWindow capacity arrivals
    let replay := (Pipeline.run gapWindow replayCapacity live.journal).finalize
    replay.2 = live.sink ∧ replay.1.stats.mergedCrc = live.pipeline.stats.mergedCrc := by
  intro live replay
  have agrees : Agrees v live (Pipeline.run gapWindow replayCapacity live.journal) := by
    have start := create_agrees gapWindow capacity replayCapacity v
    refine (quiet.and (Run.along_of_forall _ arrivals single)).invariant
      (P := fun s : LiveIngest => Agrees v s (Pipeline.run gapWindow replayCapacity s.journal))
      ?_ start
    rintro s ⟨side, ev⟩ agrees ⟨quietly, venue⟩
    simp only at venue
    subst venue
    simp only [ingest_journal, Pipeline.run, List.foldl_append, List.foldl_cons, List.foldl_nil]
    exact agrees.ingest quietly
  have delivered : replay.2 = live.sink := agrees.others.drainAll.1.trans agrees.sink
  refine ⟨delivered, ?_⟩
  rw [agrees.crc, ← delivered]
  exact congrArg (fun crc => replay.2.foldl updateCrcFromBookEvent crc) agrees.unmerged

/-- Both lines in order, one of them a step behind, and a gap at the end. -/
theorem replay_agrees_with_live_race :
    let live := run 8 4 [(.a, { sequence := 1 }), (.b, { sequence := 1 }), (.a, { sequence := 2 }),
      (.b, { sequence := 2 }), (.a, { sequence := 4 })]
    let replay := (Pipeline.run 8 4 live.journal).finalize
    replay.2 = live.sink ∧ replay.1.stats.mergedCrc = live.pipeline.stats.mergedCrc :=
  replay_agrees_with_live 8 4 4 .nasdaq [(.a, { sequence := 1 }), (.b, { sequence := 1 }),
    (.a, { sequence := 2 }), (.b, { sequence := 2 }), (.a, { sequence := 4 })] (by decide)
    ⟨by decide, by decide, by decide, by decide, by decide, trivial⟩

/-- Sequence 2 before sequence 1: replay delivers both, the live path only the second. -/
theorem live_loses_reordered :
    let live := run 8 4 [(.a, { sequence := 2 }), (.a, { sequence := 1 })]
    let replay := (Pipeline.run 8 4 live.journal).finalize
    live.sink = [{ sequence := 1 }] ∧ replay.2 = [{ sequence := 1 }, { sequence := 2 }] := by
  decide

end LiveIngest
end FeedHandler
