import FeedHandler.Runtime.ShardedRuns
import Mathlib.Algebra.Order.BigOperators.Group.Finset

/-! What a shutdown keeps. A worker tests the closed flag after a pop that found its
ring empty; between the two the producer can push its last events and close. The
shutdown loses nothing exactly when no worker leaves its loop with events waiting. -/
namespace FeedHandler
namespace ShardedPipeline

variable {bits : Nat} {outside : Outside} {cfg : ShardedPipelineConfig} {events : List BookEvent}
  {s s' : ShardedPipeline bits} {turn : Turn}

/-- A worker that loads the closed flag as set has an empty ring at that moment. -/
def DrainedAtClose (s : ShardedPipeline bits) : Turn → Prop
  | .producer _ => True
  | .worker i => i < s.shardCount → (s.workers i).phase = .checking → s.inputClosed = true →
      (s.workers i).ring.tryPop = none

/-- The worker's pipeline was given every accepted event of its shard, in submit order. -/
def HandledAll (s : ShardedPipeline bits) (i : Nat) : Prop :=
  (s.workers i).handled.map BookEvent.unsequenced =
    (s.routed.filter (fun ev => decide (shardForSymbol ev.symbol s.shardCount = i))).map
      BookEvent.unsequenced

/-- The sum of `per_shard_events`. -/
def handledTotal (s : ShardedPipeline bits) : Nat :=
  ∑ i ∈ Finset.range s.shardCount, s.stats.perShardEvents i

/-- Every finished worker was given all its events, and once `finalize` has returned the
counts of the workers add up to the submitted events. -/
def NothingLost (s : ShardedPipeline bits) : Prop :=
  (∀ i < s.shardCount, (s.workers i).phase = .finished → s.HandledAll i) ∧
    (s.producer = .done → s.handledTotal = s.stats.submittedEvents)

/-- The pushed events of a shard are the accepted ones, up to the worker's numbering. -/
theorem Flow.sentTo_routed (flow : Flow events s) (i : Nat) :
    (s.sentTo i).map BookEvent.unsequenced =
      (s.routed.filter (fun ev => decide (shardForSymbol ev.symbol s.shardCount = i))).map
        BookEvent.unsequenced := by
  have parts := congrArg (fun l => (l.filter (fun q => decide (q.1 = i))).map Prod.snd) flow.routed
  simp only [List.filter_map, List.map_map] at parts
  simp only [sentTo, List.map_map]
  exact parts

theorem Invariant.handledAll_iff (inv : Invariant cfg events s) (i : Nat) :
    s.HandledAll i ↔ (s.workers i).handled = s.sentTo i := by
  simp only [HandledAll, ← inv.flow.sentTo_routed]
  constructor
  · intro same
    have lengths := congrArg List.length same
    rw [List.length_map, List.length_map] at lengths
    exact (inv.lanes.handled_prefix i).eq_of_length lengths
  · intro same
    rw [same]

/-- Every worker that has finished had handled all that was pushed to it. -/
def Drained (s : ShardedPipeline bits) : Prop :=
  ∀ i, (s.workers i).phase = .finished → (s.workers i).handled = s.sentTo i

/-- A worker has finished and events pushed to it were never handled. -/
def Lost (s : ShardedPipeline bits) (i : Nat) : Prop :=
  (s.workers i).phase = .finished ∧ (s.workers i).handled ≠ s.sentTo i

/-- What a worker has handled and been sent does not change once it has finished. -/
theorem Invariant.finished_frozen (inv : Invariant cfg events s) (moved : Moved outside s turn s')
    {i : Nat} (finished : (s.workers i).phase = .finished) :
    (s'.workers i).phase = .finished ∧ (s'.workers i).handled = (s.workers i).handled ∧
      s'.sentTo i = s.sentTo i := by
  have others : ∀ {j : Nat} {w : Worker bits}, (s.workers j).phase ≠ .finished →
      (s.setWorker j w).workers i = s.workers i := by
    intro j w running
    have apart : i ≠ j := by
      rintro rfl
      exact running finished
    simp only [ShardedPipeline.setWorker, Function.update_of_ne apart]
  cases moved with
  | idle => exact ⟨finished, rfl, rfl⟩
  | number now ev rest phase todo => exact ⟨finished, rfl, rfl⟩
  | close now phase todo => exact ⟨finished, rfl, rfl⟩
  | accept now shard copy workerEv ring phase pushed =>
    have closed := (inv.shutdown.late i finished).symm.trans inv.shutdown.closed
    rw [phase] at closed
    cases closed
  | refuse now shard copy workerEv phase => exact ⟨finished, rfl, rfl⟩
  | retry now shard copy workerEv phase opened => exact ⟨finished, rfl, rfl⟩
  | giveUp now shard copy workerEv phase closed => exact ⟨finished, rfl, rfl⟩
  | join now k phase inside ended => exact ⟨finished, rfl, rfl⟩
  | conclude now k phase last => exact ⟨finished, rfl, rfl⟩
  | handle j ev ring inside phase popped =>
    rw [others (by simp [phase])]
    exact ⟨finished, rfl, rfl⟩
  | sawEmpty j inside phase =>
    rw [others (by simp [phase])]
    exact ⟨finished, rfl, rfl⟩
  | resume j inside phase opened =>
    rw [others (by simp [phase])]
    exact ⟨finished, rfl, rfl⟩
  | finish j inside phase closed =>
    have same : (s.finish j).workers i = s.workers i := others (by simp [phase])
    rw [same]
    exact ⟨finished, rfl, rfl⟩

/-- A worker leaves its loop only in a turn of its own that saw the flag set. -/
theorem newly_finished (moved : Moved outside s turn s') {i : Nat}
    (running : (s.workers i).phase ≠ .finished) (finished : (s'.workers i).phase = .finished) :
    turn = .worker i ∧ i < s.shardCount ∧ (s.workers i).phase = .checking ∧
      s.inputClosed = true ∧ s' = s.finish i := by
  have others : ∀ {j : Nat} {w : Worker bits}, w.phase ≠ .finished →
      ((s.setWorker j w).workers i).phase ≠ .finished := by
    intro j w still
    simp only [ShardedPipeline.setWorker]
    by_cases same : i = j
    · subst same
      rwa [Function.update_self]
    · rwa [Function.update_of_ne same]
  cases moved with
  | idle => exact absurd finished running
  | number now ev rest phase todo => exact absurd finished running
  | close now phase todo => exact absurd finished running
  | accept now shard copy workerEv ring phase pushed =>
    by_cases same : i = shard
    · subst same
      simp only [ShardedPipeline.accept, ShardedPipeline.setWorker, Function.update_self] at finished
      exact absurd finished running
    · simp only [ShardedPipeline.accept, ShardedPipeline.setWorker,
        Function.update_of_ne same] at finished
      exact absurd finished running
  | refuse now shard copy workerEv phase => exact absurd finished running
  | retry now shard copy workerEv phase opened => exact absurd finished running
  | giveUp now shard copy workerEv phase closed => exact absurd finished running
  | join now k phase inside ended => exact absurd finished running
  | conclude now k phase last => exact absurd finished running
  | handle j ev ring inside phase popped =>
    exact absurd finished (others (by simp [Worker.handle, phase]))
  | sawEmpty j inside phase => exact absurd finished (others (by simp))
  | resume j inside phase opened => exact absurd finished (others (by simp))
  | finish j inside phase closed =>
    by_cases same : i = j
    · subst same
      exact ⟨rfl, inside, phase, closed, rfl⟩
    · simp only [ShardedPipeline.finish, ShardedPipeline.setWorker,
        Function.update_of_ne same] at finished
      exact absurd finished running

/-- A worker has handled all that was pushed to it exactly when its ring is empty. -/
theorem Lanes.handled_iff (lanes : s.Lanes) (i : Nat) :
    (s.workers i).ring.tryPop = none ↔ (s.workers i).handled = s.sentTo i := by
  obtain ⟨waiting, queued, split⟩ := (lanes.lane i).ring
  cases waiting with
  | nil =>
    rw [split, List.append_nil]
    exact iff_of_true queued.tryPop_nil rfl
  | cons oldest later =>
    obtain ⟨rest, popped, _⟩ := queued.tryPop_cons
    rw [popped, split]
    simp

theorem finish_handled (s : ShardedPipeline bits) (i : Nat) :
    ((s.finish i).workers i).handled = (s.workers i).handled := by
  simp only [ShardedPipeline.finish, ShardedPipeline.setWorker, Function.update_self]

theorem finish_phase (s : ShardedPipeline bits) (i : Nat) :
    ((s.finish i).workers i).phase = .finished := by
  simp only [ShardedPipeline.finish, ShardedPipeline.setWorker, Function.update_self]

/-- A turn that meets the condition loses nothing. -/
theorem Drained.step (drained : s.Drained) (inv : Invariant cfg events s)
    (empty : s.DrainedAtClose turn) : (ShardedPipeline.step outside s turn).Drained := by
  have moved := step_moved outside s turn
  intro i finished
  by_cases before : (s.workers i).phase = .finished
  · obtain ⟨_, handled, sent⟩ := inv.finished_frozen moved before
    rw [handled, sent]
    exact drained i before
  · obtain ⟨rfl, inside, phase, closed, after⟩ := newly_finished moved before finished
    rw [after, finish_handled]
    exact (inv.lanes.handled_iff i).mp (empty inside phase closed)

/-- A turn that breaks the condition leaves a finished worker with events waiting. -/
theorem Invariant.lost_of_late (inv : Invariant cfg events s) (outside : Outside)
    (late : ¬ s.DrainedAtClose turn) :
    ∃ i < s.shardCount, (ShardedPipeline.step outside s turn).Lost i := by
  cases turn with
  | producer now => exact absurd trivial late
  | worker i =>
    simp only [DrainedAtClose, Classical.not_imp] at late
    obtain ⟨inside, phase, closed, waiting⟩ := late
    have after : ShardedPipeline.step outside s (.worker i) = s.finish i := by
      simp only [ShardedPipeline.step, inside, if_true, workerStep, phase, closed]
    refine ⟨i, inside, ?_⟩
    rw [after]
    refine ⟨finish_phase s i, ?_⟩
    rw [finish_handled]
    exact fun all => waiting ((inv.lanes.handled_iff i).mpr all)

/-- What is lost stays lost. -/
theorem Invariant.lost_step (inv : Invariant cfg events s) {i : Nat} (lost : s.Lost i) :
    (ShardedPipeline.step outside s turn).Lost i := by
  obtain ⟨finished, handled, sent⟩ := inv.finished_frozen (step_moved outside s turn) lost.1
  refine ⟨finished, ?_⟩
  rw [handled, sent]
  exact lost.2

theorem Invariant.lost_run (inv : Invariant cfg events s) {i : Nat} (lost : s.Lost i)
    (turns : List Turn) : (turns.foldl (ShardedPipeline.step outside) s).Lost i := by
  induction turns generalizing s with
  | nil => exact lost
  | cons turn rest ih => exact ih (inv.step turn) (inv.lost_step lost)

theorem step_shardCount (s : ShardedPipeline bits) (turn : Turn) :
    (ShardedPipeline.step outside s turn).shardCount = s.shardCount :=
  congrArg ShardedPipelineConfig.shardCount (moved_cfg (step_moved outside s turn))

theorem Invariant.lost_of_not_along (inv : Invariant cfg events s) {turns : List Turn}
    (late : ¬ Run.Along (ShardedPipeline.step outside) DrainedAtClose s turns) :
    ∃ i < s.shardCount, (turns.foldl (ShardedPipeline.step outside) s).Lost i := by
  induction turns generalizing s with
  | nil => exact absurd trivial late
  | cons turn rest ih =>
    by_cases first : s.DrainedAtClose turn
    · have later := fun along => late ⟨first, along⟩
      obtain ⟨i, inside, lost⟩ := ih (inv.step turn) later
      exact ⟨i, (step_shardCount s turn) ▸ inside, lost⟩
    · obtain ⟨i, inside, lost⟩ := inv.lost_of_late outside first
      exact ⟨i, inside, (inv.step turn).lost_run lost rest⟩

theorem length_filter_succ (l : List (Nat × BookEvent)) (n : Nat) :
    (l.filter (fun p => decide (p.1 < n + 1))).length =
      (l.filter (fun p => decide (p.1 < n))).length +
        (l.filter (fun p => decide (p.1 = n))).length := by
  induction l with
  | nil => rfl
  | cons p rest ih =>
    rcases Nat.lt_trichotomy p.1 n with below | here | above
    · have inside : p.1 < n + 1 := by omega
      have apart : ¬ p.1 = n := by omega
      simp only [List.filter_cons, below, inside, apart, decide_true, decide_false, if_true,
        Bool.false_eq_true, if_false, List.length_cons]
      omega
    · subst here
      simp only [List.filter_cons, Nat.lt_succ_self, Nat.lt_irrefl, decide_true, decide_false,
        if_true, Bool.false_eq_true, if_false, List.length_cons]
      omega
    · have beyond : ¬ p.1 < n + 1 := by omega
      have outside : ¬ p.1 < n := by omega
      have apart : ¬ p.1 = n := by omega
      simp only [List.filter_cons, beyond, outside, apart, decide_false, Bool.false_eq_true,
        if_false]
      exact ih

/-- The shards partition what has been pushed. -/
theorem sum_sentTo (s : ShardedPipeline bits) (n : Nat) :
    ∑ i ∈ Finset.range n, (s.sentTo i).length =
      (s.sent.filter (fun p => decide (p.1 < n))).length := by
  induction n with
  | zero => simp
  | succ n ih =>
    rw [Finset.sum_range_succ, ih, length_filter_succ]
    simp only [sentTo, List.length_map]

theorem Invariant.sent_total (inv : Invariant cfg events s) :
    ∑ i ∈ Finset.range s.shardCount, (s.sentTo i).length = s.submittedEvents := by
  rw [sum_sentTo, inv.flow.submitted]
  congr 1
  rw [List.filter_eq_self]
  intro p pushed
  have entry : (p.1, p.2.unsequenced) ∈
      s.routed.map (fun ev => (shardForSymbol ev.symbol s.shardCount, ev.unsequenced)) := by
    rw [← inv.flow.routed]
    exact List.mem_map_of_mem (f := fun p => (p.1, p.2.unsequenced)) pushed
  obtain ⟨ev, _, same⟩ := List.mem_map.mp entry
  have target : shardForSymbol ev.symbol s.shardCount = p.1 := congrArg Prod.fst same
  rw [← target]
  exact decide_eq_true (shardForSymbol_lt ev.symbol inv.shards_pos)

/-- When `finalize` has returned, the counts add up exactly if no worker missed anything. -/
theorem Invariant.total_iff (inv : Invariant cfg events s) (returned : s.producer = .done) :
    s.handledTotal = s.stats.submittedEvents ↔ ∀ i < s.shardCount, s.HandledAll i := by
  obtain ⟨finished, submitted, _⟩ := inv.shutdown.done returned
  have counts : s.handledTotal =
      ∑ i ∈ Finset.range s.shardCount, (s.workers i).handled.length := by
    apply Finset.sum_congr rfl
    intro i member
    exact inv.lanes.reported i (finished i (Finset.mem_range.mp member))
  have bound : ∀ i ∈ Finset.range s.shardCount,
      (s.workers i).handled.length ≤ (s.sentTo i).length := by
    intro i _
    exact (inv.lanes.handled_prefix i).length_le
  rw [counts, submitted, ← inv.sent_total, Finset.sum_eq_sum_iff_of_le bound]
  simp only [Finset.mem_range, inv.handledAll_iff]
  apply forall_congr'
  intro i
  apply forall_congr'
  intro _
  exact ⟨(inv.lanes.handled_prefix i).eq_of_length, congrArg List.length⟩

theorem run_drained {turns : List Turn}
    (along : Run.Along (step outside) DrainedAtClose (create cfg events : ShardedPipeline bits)
      turns) : (run outside cfg events turns : ShardedPipeline bits).NothingLost := by
  have inv := run_invariant bits outside cfg events turns
  have drained := (along.invariant
    (P := fun s : ShardedPipeline bits => Invariant cfg events s ∧ s.Drained)
    (fun s turn both empty => ⟨both.1.step turn, both.2.step both.1 empty⟩)
    ⟨create_invariant, fun i finished => by cases finished⟩).2
  constructor
  · intro i _ finished
    exact (inv.handledAll_iff i).mpr (drained i finished)
  · intro returned
    obtain ⟨finished, _⟩ := inv.shutdown.done returned
    apply (inv.total_iff returned).mpr
    intro i inside
    exact (inv.handledAll_iff i).mpr (drained i (finished i inside))

/-- In every interleaving in which no worker reads the flag as set over a waiting event, nothing
is lost in any state; and no other interleaving in which `finalize` returns keeps every event. -/
theorem shutdown_loses_nothing_iff (outside : Outside) (cfg : ShardedPipelineConfig)
    (events : List BookEvent) (turns : List Turn) :
    (Run.Along (step outside) DrainedAtClose (create cfg events : ShardedPipeline bits) turns →
      ∀ n, (run outside cfg events (turns.take n) : ShardedPipeline bits).NothingLost) ∧
    ((run outside cfg events turns : ShardedPipeline bits).producer = .done →
      ((run outside cfg events turns : ShardedPipeline bits).NothingLost ↔
        Run.Along (step outside) DrainedAtClose (create cfg events : ShardedPipeline bits)
          turns)) := by
  constructor
  · intro along n
    rw [← List.take_append_drop n turns, Run.along_append] at along
    exact run_drained along.1
  · intro returned
    refine ⟨?_, run_drained⟩
    rintro ⟨all, _⟩
    by_contra late
    have inv := run_invariant bits outside cfg events turns
    obtain ⟨finished, _⟩ := inv.shutdown.done returned
    obtain ⟨i, inside, lost⟩ := create_invariant.lost_of_not_along late
    have shard : i < (run outside cfg events turns : ShardedPipeline bits).shardCount := by
      simp only [shardCount, inv.cfg]
      exact inside
    exact lost.2 ((inv.handledAll_iff i).mp (all i shard (finished i shard)))

/-- The only worker polls an empty ring; the producer pushes its event and closes; the worker
reads the flag as set and leaves. `finalize` returns with no event handled and one submitted. -/
theorem tail_event_lost :
    ¬ ∀ (outside : Outside) (cfg : ShardedPipelineConfig) (events : List BookEvent)
        (turns : List Turn),
      (run outside cfg events turns : ShardedPipeline 14).NothingLost := by
  intro claim
  have total := (claim (fun table _ _ => (0, table)) {} [{ sequence := 1 }]
    [.worker 0, .producer 0, .producer 0, .producer 0, .worker 0, .producer 0, .producer 0]).2
    (by decide)
  exact absurd total (by decide)

end ShardedPipeline
end FeedHandler
