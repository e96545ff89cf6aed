import FeedHandler.Phase2.EventOrigins
import FeedHandler.Phase2.PipelineInOrder

/-! The failover check. A stream is sent over two feeds that drop events, the arbiter puts
the feeds together again, and what the pipeline makes of it is compared with what it makes
of the stream itself. -/
namespace FeedHandler

open DeterministicMerger (ofVenue)

/-- What the generator draws for one event: the feeds that keep it. -/
structure FeedDraw where
  keepA : Bool
  keepB : Bool

/-- Some feed keeps the event. -/
abbrev FeedDraw.Kept (draw : FeedDraw) : Prop := draw.keepA = true ∨ draw.keepB = true

structure DroppedFeedCounts where
  droppedA : Nat := 0
  droppedB : Nat := 0
  deriving DecidableEq, Repr

namespace AbFailover

/-- The copies of one event. Where both feeds keep it, the parity of its sequence says which
of them is first. -/
def copies (draw : FeedDraw) (ev : BookEvent) : List (FeedSide × BookEvent) :=
  if !draw.keepA ∧ !draw.keepB then []
  else if draw.keepA ∧ draw.keepB then
    if ev.sequence &&& 1 = 0 then [(.a, ev), (.b, ev)] else [(.b, ev), (.a, ev)]
  else if draw.keepA then [(.a, ev)]
  else [(.b, ev)]

/-- The draws are those of a seeded generator, two for every event in turn. -/
def makeDualFeedRaceStream (draws : Nat → FeedDraw) (source : List BookEvent) :
    List (FeedSide × BookEvent) × DroppedFeedCounts :=
  (source.zipIdx.flatMap fun ev => copies (draws ev.2) ev.1,
    { droppedA := (source.zipIdx.filter fun ev => !(draws ev.2).keepA).length
      droppedB := (source.zipIdx.filter fun ev => !(draws ev.2).keepB).length })

/-- Arbiter and pipeline of the injected run. -/
structure Injected where
  arb : AbArbiter
  pipeline : Pipeline

def step (s : Injected) (pair : FeedSide × BookEvent) : Injected :=
  let drained := (s.arb.onEvent pair.1 pair.2).1.drainReady
  ⟨drained.1, drained.2.foldl Pipeline.onEvent s.pipeline⟩

/-- The injected run up to the call of `finalize`. -/
def runRaced (gapWindow capacity : Nat) (raced : List (FeedSide × BookEvent)) : Injected :=
  raced.foldl step ⟨.create gapWindow, .create gapWindow capacity⟩

structure RunOutcome where
  crc : UInt32
  merged : List BookEvent

def outcome (p : Pipeline) : RunOutcome := ⟨p.finalize.1.stats.mergedCrc, p.finalize.2⟩

def runBaseline (gapWindow capacity : Nat) (source : List BookEvent) : RunOutcome :=
  outcome (Pipeline.run gapWindow capacity source)

/-- The fields that are compared; the time of ingestion is not among them. -/
def sameEvent (a b : BookEvent) : Bool :=
  a.venue = b.venue ∧ a.type = b.type ∧ a.sequence = b.sequence ∧
    a.exchangeTsNs = b.exchangeTsNs ∧ a.side = b.side ∧ a.price = b.price ∧ a.qty = b.qty ∧
    a.orderId = b.orderId ∧ a.rawType = b.rawType ∧ a.symbol = b.symbol

/-- Places at which the runs differ, and what one run has more than the other. -/
def divergenceCount (a b : List BookEvent) : Nat :=
  ((a.zip b).filter fun pair => !sameEvent pair.1 pair.2).length +
    if b.length < a.length then a.length - b.length
    else if a.length < b.length then b.length - a.length else 0

variable {draws : Nat → FeedDraw} {source past : List BookEvent} {ev : BookEvent}
  {gapWindow capacity : Nat}

theorem sameEvent_self (ev : BookEvent) : sameEvent ev ev = true := by simp [sameEvent]

theorem divergenceCount_self (events : List BookEvent) : divergenceCount events events = 0 := by
  have none : (events.zip events).filter (fun pair => !sameEvent pair.1 pair.2) = [] := by
    rw [List.filter_eq_nil_iff]
    rintro pair member
    obtain ⟨i, inside, rfl⟩ := List.getElem_of_mem member
    simp [sameEvent_self]
  simp [divergenceCount, none]

/-- Runs that do not diverge have every event of one in the other. -/
theorem mem_of_undiverged {a b : List BookEvent} (none : divergenceCount a b = 0)
    (member : ev ∈ a) :
    ∃ other ∈ b, sameEvent ev other = true := by
  simp only [divergenceCount, Nat.add_eq_zero_iff, List.length_eq_zero_iff,
    List.filter_eq_nil_iff] at none
  obtain ⟨alike, lengths⟩ := none
  obtain ⟨i, inside, rfl⟩ := List.getElem_of_mem member
  have within : i < b.length := by
    split at lengths
    · omega
    · omega
  refine ⟨b[i], List.getElem_mem within, ?_⟩
  have pair : (a[i], b[i]) ∈ a.zip b := by
    rw [List.mem_iff_getElem]
    exact ⟨i, by simp [inside, within], by simp⟩
  simpa using alike _ pair

theorem raced_append (source : List BookEvent) (ev : BookEvent) :
    (makeDualFeedRaceStream draws (source ++ [ev])).1 =
      (makeDualFeedRaceStream draws source).1 ++ copies (draws source.length) ev := by
  simp [makeDualFeedRaceStream, List.zipIdx_append]

/-- The arbiter after the events `past`, which came in sequence order. -/
structure Level (past : List BookEvent) (arb : AbArbiter) : Prop where
  next : ∀ v, (arb.tracker v).nextExpected = (ofVenue past v).length + 1
  clear : ∀ v, (arb.tracker v).bufferedTags.Clear
  pending : ∀ v, arb.pending v = []
  ready : arb.ready = []

/-- Every one of `n` events was accepted once, from one feed or the other. -/
structure AllArbitrated (stats : AbArbiterStats) (n copies : Nat) : Prop where
  accepted : stats.accepted = n
  sides : stats.acceptedA + stats.acceptedB = n
  duplicates : stats.duplicateOrOld + n = copies
  buffered : stats.gapBuffered = 0
  tooLarge : stats.gapTooLarge = 0
  forced : stats.forcedAdvances = 0

variable {arb : AbArbiter} {side : FeedSide} {s : Injected} {draw : FeedDraw}

/-- Effect of the first copy of the next event. -/
structure Passed (arb : AbArbiter) (ev : BookEvent) (arb' : AbArbiter) : Prop where
  trackers : arb'.sequencer.trackers =
    Function.update arb.sequencer.trackers ev.venue (arb.tracker ev.venue).advanced
  pending : arb'.pending = arb.pending
  ready : arb'.ready = arb.ready ++ [ev]
  stats : ∀ n m, AllArbitrated arb.stats n m → AllArbitrated arb'.stats (n + 1) (m + 1)

theorem onEvent_passed (side : FeedSide) (same : ev.seq = (arb.tracker ev.venue).nextExpected)
    (positive : 0 < ev.seq) (empty : arb.pending ev.venue = []) :
    Passed arb ev (arb.onEvent side ev).1 := by
  have answer := SequenceTracker.onSequence_inOrder (same ▸ positive)
  rw [← same] at answer
  simp only [AbArbiter.onEvent, empty, List.length_nil, AbArbiter.onEventAt, AbArbiter.step,
    GapAwareSequencer.onSequence, answer, AbArbiter.replayPending, AbArbiter.accept]
  refine ⟨rfl, rfl, rfl, fun n m all => ?_⟩
  obtain ⟨accepted, sides, duplicates, buffered, tooLarge, forced⟩ := all
  cases side <;> exact ⟨congrArg (· + 1) accepted, by simp; omega, by simp; omega, buffered,
    tooLarge, forced⟩

theorem onEvent_repeated (side : FeedSide) (behind : ev.seq < (arb.tracker ev.venue).nextExpected) :
    (arb.onEvent side ev).1 =
      { arb with stats := { arb.stats with duplicateOrOld := arb.stats.duplicateOrOld + 1 } } := by
  simp only [AbArbiter.onEvent]
  cases (arb.pending ev.venue).length <;>
    simp only [AbArbiter.onEventAt, AbArbiter.step, GapAwareSequencer.onSequence,
      SequenceTracker.onSequence_old (.inr behind), Function.update_eq_self]

theorem Level.passed {arb' : AbArbiter} (level : Level past arb)
    (passed : Passed arb ev arb')
    (room : (ofVenue past ev.venue).length + 2 < wordSize) :
    Level (past ++ [ev]) arb'.drainReady.1 ∧ arb'.drainReady.2 = [ev] := by
  have absent : ¬ (arb.tracker ev.venue).Buffered ((arb.tracker ev.venue).nextExpected + 1) :=
    (level.clear ev.venue).not_holds
  have expected := level.next ev.venue
  have advanced : (arb.tracker ev.venue).advanced.nextExpected =
      (ofVenue past ev.venue).length + 2 := by
    simp only [SequenceTracker.advanced]
    rw [SequenceTracker.released_quiet (by omega) absent, expected]
  have here : ∀ v, arb'.drainReady.1.tracker v = Function.update arb.sequencer.trackers ev.venue
      (arb.tracker ev.venue).advanced v := fun v => congrFun passed.trackers v
  refine ⟨⟨fun v => ?_, fun v => ?_, fun v => ?_, rfl⟩, ?_⟩
  · rw [here, Pipeline.ofVenue_append]
    by_cases same : v = ev.venue
    · subst same
      simp only [Function.update_self, List.length_append, List.length_singleton]
      exact advanced
    · simp only [Function.update_of_ne same]
      exact level.next v
  · rw [here]
    by_cases same : v = ev.venue
    · subst same
      rw [Function.update_self]
      exact (level.clear ev.venue).popRun _ _
    · rw [Function.update_of_ne same]
      exact level.clear v
  · exact (congrFun passed.pending v).trans (level.pending v)
  · exact passed.ready.trans (by rw [level.ready, List.nil_append])

/-- The injected run after an initial part of the stream that survived. -/
structure Raced (gapWindow capacity : Nat) (draws : Nat → FeedDraw) (past : List BookEvent)
    (s : Injected) : Prop where
  level : Level past s.arb
  pipeline : s.pipeline = Pipeline.run gapWindow capacity past
  stats : AllArbitrated s.arb.stats past.length (makeDualFeedRaceStream draws past).1.length

theorem copies_kept (kept : draw.Kept) (ev : BookEvent) :
    (∃ x, copies draw ev = [(x, ev)]) ∨ ∃ x y, copies draw ev = [(x, ev), (y, ev)] := by
  obtain ⟨keepA, keepB⟩ := draw
  simp only [copies]
  cases keepA <;> cases keepB
  · simp [FeedDraw.Kept] at kept
  · exact .inl ⟨.b, rfl⟩
  · exact .inl ⟨.a, rfl⟩
  · right
    by_cases even : ev.sequence &&& 1 = 0
    · exact ⟨.a, .b, by simp [even]⟩
    · exact ⟨.b, .a, by simp [even]⟩

theorem Raced.create : Raced gapWindow capacity draws []
    ⟨.create gapWindow, .create gapWindow capacity⟩ where
  level := ⟨fun _ => rfl, fun _ _ => rfl, fun _ => rfl, rfl⟩
  pipeline := rfl
  stats := ⟨rfl, rfl, rfl, rfl, rfl, rfl⟩

/-- Step lemma: the copies of an event that some feed keeps hand it to the pipeline once. -/
theorem Raced.survive (raced : Raced gapWindow capacity draws past s)
    (follows : Pipeline.Follows past ev) (kept : (draws past.length).Kept)
    (room : (ofVenue past ev.venue).length + 2 < wordSize) :
    Raced gapWindow capacity draws (past ++ [ev])
      ((copies (draws past.length) ev).foldl step s) := by
  obtain ⟨level, pipeline, stats⟩ := raced
  have expected := level.next ev.venue
  have same : ev.seq = (s.arb.tracker ev.venue).nextExpected := follows.trans expected.symm
  have positive : 0 < ev.seq := by rw [same, expected]; omega
  have first : ∀ x, ∃ arb', step s (x, ev) = ⟨arb', s.pipeline.onEvent ev⟩ ∧
      Level (past ++ [ev]) arb' ∧ ∀ n m, AllArbitrated s.arb.stats n m →
        AllArbitrated arb'.stats (n + 1) (m + 1) := by
    intro x
    have passed := onEvent_passed x same positive (level.pending ev.venue)
    obtain ⟨after, handed⟩ := level.passed passed room
    refine ⟨_, ?_, after, passed.stats⟩
    simp only [step, handed, List.foldl_cons, List.foldl_nil]
  have fed : s.pipeline.onEvent ev = Pipeline.run gapWindow capacity (past ++ [ev]) := by
    rw [pipeline, Pipeline.run, Pipeline.run, List.foldl_append]
    rfl
  rcases copies_kept kept ev with ⟨x, one⟩ | ⟨x, y, both⟩
  · obtain ⟨arb', result, after, counted⟩ := first x
    rw [one, List.foldl_cons, List.foldl_nil, result]
    refine ⟨after, fed, ?_⟩
    rw [raced_append, one, List.length_append, List.length_append]
    exact counted _ _ stats
  · obtain ⟨arb', result, after, counted⟩ := first x
    have behind : ev.seq < (arb'.tracker ev.venue).nextExpected := by
      rw [after.next, Pipeline.ofVenue_append, Function.update_self, List.length_append,
        List.length_singleton, same, expected]
      omega
    have repeated : step ⟨arb', s.pipeline.onEvent ev⟩ (y, ev) =
        ⟨{ arb' with stats := { arb'.stats with
            duplicateOrOld := arb'.stats.duplicateOrOld + 1 } }, s.pipeline.onEvent ev⟩ := by
      simp only [step, onEvent_repeated y behind, AbArbiter.drainReady, after.ready, List.foldl_nil]
    rw [both, List.foldl_cons, List.foldl_cons, List.foldl_nil, result, repeated]
    obtain ⟨accepted, sides, duplicates, buffered, tooLarge, forced⟩ := counted _ _ stats
    refine ⟨⟨after.next, after.clear, after.pending, after.ready⟩, fed, ?_⟩
    rw [raced_append, both, List.length_append, List.length_append]
    refine ⟨accepted, sides, ?_, buffered, tooLarge, forced⟩
    simp only [List.length_cons, List.length_nil]
    omega

section Stream

variable (follows : ∀ front ev, front ++ [ev] <+: source → Pipeline.Follows front ev)
include follows

/-- Run lemma: a stream of which every event survives on some feed. -/
theorem Raced.run (short : ∀ v, (ofVenue source v).length < 2 ^ 64 - 1)
    (survives : ∀ i < source.length, (draws i).Kept) :
    Raced gapWindow capacity draws source
      (runRaced gapWindow capacity (makeDualFeedRaceStream draws source).1) := by
  induction source using List.reverseRecOn with
  | nil => exact .create
  | append_singleton past ev ih =>
    have bound := short ev.venue
    rw [Pipeline.ofVenue_append, Function.update_self, List.length_append,
      List.length_singleton] at bound
    have room : (ofVenue past ev.venue).length + 2 < wordSize := by
      simp only [wordSize]
      omega
    have shorter : ∀ v, (ofVenue past v).length < 2 ^ 64 - 1 := fun v => by
      refine (List.Sublist.length_le ?_).trans_lt (short v)
      exact List.Sublist.filter _ (List.sublist_append_left past [ev])
    have before := ih
      (fun front e inside => follows front e (inside.trans (List.prefix_append _ _))) shorter
      (fun i within => survives i (by simp; omega))
    have kept := survives past.length (by simp)
    rw [runRaced, raced_append, List.foldl_append]
    exact before.survive (follows past ev (List.prefix_refl _)) kept room

/-- No two events of the stream have the same venue and sequence. -/
theorem index_unique {i j : Nat} (left : i < source.length) (right : j < source.length)
    (venue : source[i].venue = source[j].venue) (same : source[i].seq = source[j].seq) : i = j := by
  have count : ∀ k (inside : k < source.length),
      source[k].seq = (ofVenue (source.take k) source[k].venue).length + 1 := by
    intro k inside
    have initial : source.take k ++ [source[k]] <+: source := by
      rw [← List.take_succ_eq_append_getElem inside]
      exact List.take_prefix _ _
    exact follows _ _ initial
  have later : ∀ a b (start : a < source.length) (inside : b < source.length), a < b →
      source[a].venue = source[b].venue → source[a].seq < source[b].seq := by
    intro a b start inside first own
    have part : source.take a ++ [source[a]] <+: source.take b := by
      rw [← List.take_succ_eq_append_getElem start]
      exact List.take_prefix_take_left first
    have grown := ((part.sublist).filter fun ev => decide (ev.venue = source[b].venue)).length_le
    rw [List.filter_append, List.length_append, List.filter_singleton, decide_eq_true own,
      cond_true, List.length_singleton] at grown
    rw [count a start, count b inside, own]
    exact Nat.succ_lt_succ (Nat.lt_of_succ_le grown)
  rcases Nat.lt_trichotomy i j with first | equal | first
  · exact absurd same (later i j left right first venue).ne
  · exact equal
  · exact absurd same.symm (later j i right left first venue.symm).ne

end Stream

theorem Injected.only {Q : BookEvent → Prop} {raced : List (FeedSide × BookEvent)}
    (mine : ∀ pair ∈ raced, Q pair.2) :
    ∀ e ∈ (outcome (runRaced gapWindow capacity raced).pipeline).merged, Q e := by
  have along : Run.Along step (fun _ pair => Q pair.2)
      ⟨.create gapWindow, .create gapWindow capacity⟩ raced := Run.along_of_forall _ _ mine
  have held := along.invariant (P := fun s => s.arb.Only Q ∧ s.pipeline.Only Q) ?_
    ⟨?_, Pipeline.create_only _ _⟩
  · exact held.2.finalize
  · rintro s ⟨side, ev⟩ ⟨arb, pipeline⟩ its
    have after := arb.onEvent side its
    exact ⟨⟨after.pending, fun e none => absurd none List.not_mem_nil⟩, pipeline.run after.ready⟩
  · exact ⟨fun v e none => absurd none List.not_mem_nil, fun e none => absurd none List.not_mem_nil⟩

/-- Every copy in the race is one of an event that some feed keeps. -/
theorem mem_raced {pair : FeedSide × BookEvent}
    (member : pair ∈ (makeDualFeedRaceStream draws source).1) :
    ∃ j, ∃ inside : j < source.length, (draws j).Kept ∧ pair.2 = source[j] := by
  obtain ⟨⟨e, j⟩, listed, copied⟩ := List.mem_flatMap.mp member
  obtain ⟨inside, here⟩ := List.mem_zipIdx_iff_getElem?.mp listed |> List.getElem?_eq_some_iff.mp
  refine ⟨j, inside, ?_⟩
  rw [here]
  simp only [copies, FeedDraw.Kept] at copied ⊢
  revert copied
  cases (draws j).keepA <;> cases (draws j).keepB <;> simp
  · rintro rfl
    rfl
  · rintro rfl
    rfl
  · split <;> simp <;> rintro (rfl | rfl) <;> rfl

/-- An event that both feeds drop is in the one run and not in the other. -/
theorem lost_event (gapWindow capacity : Nat)
    (follows : ∀ front ev, front ++ [ev] <+: source → Pipeline.Follows front ev)
    {i : Nat} (inside : i < source.length) (dropped : ¬ (draws i).Kept) :
    source[i] ∈ (runBaseline gapWindow capacity source).merged ∧
      ∀ e ∈ (outcome (runRaced gapWindow capacity
          (makeDualFeedRaceStream draws source).1).pipeline).merged,
        ¬ (source[i].venue = e.venue ∧ source[i].seq = e.seq) := by
  constructor
  · have fed := Pipeline.run_inStep gapWindow capacity follows
    have tagged : KWayMerge.Tagged BookEvent.venue
        (Pipeline.run gapWindow capacity source).merger.queues := by
      intro v e member
      rw [fed.queues] at member
      simpa using List.of_mem_filter member
    have venue := (DeterministicMerger.drainAll_merges _).1.filter_eq tagged source[i].venue
    have queued : source[i] ∈ ofVenue source source[i].venue :=
      List.mem_filter.mpr ⟨List.getElem_mem inside, by simp⟩
    rw [fed.queues] at venue
    rw [← venue] at queued
    exact (List.mem_filter.mp queued).1
  · refine Injected.only fun pair member same => ?_
    obtain ⟨j, within, kept, here⟩ := mem_raced member
    rw [here] at same
    obtain rfl := index_unique follows inside within same.1 same.2
    exact dropped kept

/-- The failover check is exact: whatever the feeds drop, the injected run merges what the
baseline merges, without divergence, precisely if no event is dropped by both. Then also the
checksums agree, and the arbiter has accepted every event once and told every other copy to be
a duplicate, without a gap. -/
theorem failover_exact (gapWindow capacity : Nat) (draws : Nat → FeedDraw) (source : List BookEvent)
    (counted : ∀ v, (ofVenue source v).map BookEvent.seq = List.range' 1 (ofVenue source v).length)
    (short : ∀ v, (ofVenue source v).length < 2 ^ 64 - 1) :
    let raced := makeDualFeedRaceStream draws source
    let s := runRaced gapWindow capacity raced.1
    let baseline := runBaseline gapWindow capacity source
    let injected := outcome s.pipeline
    (injected.merged = baseline.merged ↔ ∀ i < source.length, (draws i).Kept) ∧
      (divergenceCount baseline.merged injected.merged = 0 ↔
        ∀ i < source.length, (draws i).Kept) ∧
      ((∀ i < source.length, (draws i).Kept) → injected = baseline ∧
        AllArbitrated s.arb.stats source.length raced.1.length) := by
  intro raced s baseline injected
  have follows := Pipeline.follows_of_counted counted
  have passed : (∀ i < source.length, (draws i).Kept) → injected = baseline ∧
      AllArbitrated s.arb.stats source.length raced.1.length := by
    intro survives
    have run : Raced gapWindow capacity draws source s := .run follows short survives
    exact ⟨congrArg outcome run.pipeline, run.stats⟩
  have survives_of_undiverged : divergenceCount baseline.merged injected.merged = 0 →
      ∀ i < source.length, (draws i).Kept := by
    intro none i inside
    by_contra dropped
    obtain ⟨present, missing⟩ := lost_event gapWindow capacity follows inside dropped
    obtain ⟨other, member, alike⟩ := mem_of_undiverged none present
    simp only [sameEvent, decide_eq_true_eq] at alike
    exact missing other member ⟨alike.1, congrArg UInt64.toNat alike.2.2.1⟩
  have undiverged : injected.merged = baseline.merged →
      divergenceCount baseline.merged injected.merged = 0 := by
    intro same
    rw [same]
    exact divergenceCount_self _
  refine ⟨⟨fun same => survives_of_undiverged (undiverged same), fun survives => ?_⟩,
    ⟨survives_of_undiverged, fun survives => undiverged ?_⟩, passed⟩
  · exact congrArg RunOutcome.merged (passed survives).1
  · exact congrArg RunOutcome.merged (passed survives).1

/-- Three events of two venues, of which each feed drops one. -/
theorem failover_exact_one_each :
    let source : List BookEvent :=
      [{ sequence := 1 }, { venue := .iex, sequence := 1 }, { sequence := 2 }]
    let draws : Nat → FeedDraw := fun i => ⟨i != 0, i != 1⟩
    let raced := makeDualFeedRaceStream draws source
    let s := runRaced 8 4 raced.1
    let baseline := runBaseline 8 4 source
    let injected := outcome s.pipeline
    (injected.merged = baseline.merged ↔ ∀ i < source.length, (draws i).Kept) ∧
      (divergenceCount baseline.merged injected.merged = 0 ↔
        ∀ i < source.length, (draws i).Kept) ∧
      ((∀ i < source.length, (draws i).Kept) → injected = baseline ∧
        AllArbitrated s.arb.stats source.length raced.1.length) :=
  failover_exact 8 4 _ _ (fun v => by cases v <;> decide) (fun v => by cases v <;> decide)

end AbFailover
end FeedHandler
