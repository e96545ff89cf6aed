import FeedHandler.Lib.Run
import FeedHandler.Runtime.ShardedPipeline

/-! Invariants of every interleaving of the sharded pipeline: what the producer has
given out, what each worker holds and has handled, and how the shutdown proceeds. -/
namespace FeedHandler

/-- The event without the sequence that `submit` overwrites for the worker. -/
def BookEvent.unsequenced (ev : BookEvent) : BookEvent := { ev with sequence := 0 }

/-- The event without the arrival time that `submit` stamps on it. -/
def BookEvent.unstamped (ev : BookEvent) : BookEvent := { ev with ingestTsNs := 0 }

/-- The event between numbering and push, as shard, copy and worker's event. -/
def ProducerPhase.flight : ProducerPhase → Option (Nat × BookEvent × BookEvent)
  | .pushing shard copy workerEv => some (shard, copy, workerEv)
  | .refused shard copy workerEv => some (shard, copy, workerEv)
  | _ => none

/-- The producer has entered the joins of `finalize`. -/
def ProducerPhase.closing : ProducerPhase → Bool
  | .joining _ => true
  | .done => true
  | _ => false

namespace ShardedPipeline

variable {bits : Nat} {outside : Outside} {cfg : ShardedPipelineConfig} {events : List BookEvent}
  {s s' : ShardedPipeline bits} {turn : Turn}

/-- The accepted events, in submit order. -/
abbrev routed (s : ShardedPipeline bits) : List BookEvent :=
  s.reaggregation.routedEventsInSubmitOrder

/-- What has been pushed to the ring of one worker. -/
def sentTo (s : ShardedPipeline bits) (i : Nat) : List BookEvent :=
  (s.sent.filter (fun p => decide (p.1 = i))).map Prod.snd

theorem sentTo_append {shard : Nat} {ev : BookEvent}
    (pushed : s'.sent = s.sent ++ [(shard, ev)]) (i : Nat) :
    s'.sentTo i = if i = shard then s.sentTo i ++ [ev] else s.sentTo i := by
  simp only [sentTo, pushed, List.filter_append, List.map_append]
  split
  · next same => simp [same]
  · next other =>
    have apart : ¬ shard = i := fun equal => other equal.symm
    simp [apart]

section Accept

variable {shard : Nat} {copy workerEv : BookEvent} {ring : SpscRing BookEvent bits}

@[simp] theorem accept_given : (s.accept shard copy workerEv ring).given = s.given := rfl

@[simp] theorem accept_sent :
    (s.accept shard copy workerEv ring).sent = s.sent ++ [(shard, workerEv)] := rfl

@[simp] theorem accept_routed : (s.accept shard copy workerEv ring).routed = s.routed ++ [copy] :=
  rfl

@[simp] theorem accept_shardCount :
    (s.accept shard copy workerEv ring).shardCount = s.shardCount := rfl

@[simp] theorem accept_todo : (s.accept shard copy workerEv ring).todo = s.todo := rfl

@[simp] theorem accept_flight : (s.accept shard copy workerEv ring).producer.flight = none := rfl

@[simp] theorem accept_submitted :
    (s.accept shard copy workerEv ring).submittedEvents = s.submittedEvents + 1 := rfl

end Accept

/-- How the shutdown proceeds. -/
structure Shutdown (s : ShardedPipeline bits) : Prop where
  closed : s.inputClosed = s.producer.closing
  emptied : s.inputClosed = true → s.todo = []
  late : ∀ i, (s.workers i).phase = .finished → s.inputClosed = true
  joined : ∀ k, s.producer = .joining k → ∀ i < k, (s.workers i).phase = .finished
  done : s.producer = .done → (∀ i < s.shardCount, (s.workers i).phase = .finished) ∧
    s.stats.submittedEvents = s.submittedEvents ∧ s.stats.reaggregatedCrc = s.reaggregation.crc

theorem create_shutdown : Shutdown (create cfg events : ShardedPipeline bits) where
  closed := rfl
  emptied := by simp [create]
  late := by simp [create]
  joined := by simp [create]
  done := by simp [create]

/-- A worker that takes a turn without finishing leaves the shutdown as it is. -/
theorem Shutdown.setWorker (shutdown : s.Shutdown) {i : Nat} {w : Worker bits}
    (before : (s.workers i).phase ≠ .finished) (after : w.phase ≠ .finished) :
    (s.setWorker i w).Shutdown := by
  have others : ∀ j, ((s.setWorker i w).workers j).phase = .finished ↔
      (s.workers j).phase = .finished :=
    (Function.forall_update_iff _ (fun j (w : Worker bits) => w.phase = .finished ↔
      (s.workers j).phase = .finished)).mpr ⟨iff_of_false after before, fun _ _ => Iff.rfl⟩
  constructor
  · exact shutdown.closed
  · exact shutdown.emptied
  · intro j finished
    exact shutdown.late j ((others j).mp finished)
  · intro k joining j below
    exact (others j).mpr (shutdown.joined k joining j below)
  · intro returned
    obtain ⟨all, stats⟩ := shutdown.done returned
    exact ⟨fun j below => (others j).mpr (all j below), stats⟩

/-- A move of the producer before `finalize` leaves the shutdown where it is. -/
theorem Shutdown.beforeClose (shutdown : s.Shutdown) (before : s.producer.closing = false)
    (flag : s'.inputClosed = s.inputClosed) (after : s'.producer.closing = false)
    (workers : ∀ i, (s'.workers i).phase = (s.workers i).phase) : s'.Shutdown := by
  have opened : s'.inputClosed = false := flag.trans (shutdown.closed.trans before)
  constructor
  · exact opened.trans after.symm
  · intro closed
    exact absurd (opened.symm.trans closed) (by decide)
  · intro i finished
    rw [flag]
    exact shutdown.late i ((workers i).symm.trans finished)
  · intro k joining
    rw [joining] at after
    cases after
  · intro returned
    rw [returned] at after
    cases after

theorem Shutdown.moved (shutdown : s.Shutdown) (moved : Moved outside s turn s') : s'.Shutdown := by
  cases moved with
  | idle => exact shutdown
  | number now ev rest phase todo =>
    exact shutdown.beforeClose (by rw [phase]; rfl) rfl rfl (fun _ => rfl)
  | close now phase todo =>
    constructor
    · rfl
    · exact fun _ => todo
    · exact fun _ _ => rfl
    · intro k joining i below
      cases joining
      exact absurd below (Nat.not_lt_zero i)
    · intro returned
      cases returned
  | accept now shard copy workerEv ring phase pushed =>
    refine shutdown.beforeClose (by rw [phase]; rfl) rfl rfl ?_
    exact (Function.forall_update_iff _ (fun j (w : Worker bits) => w.phase = (s.workers j).phase)).mpr
      ⟨rfl, fun _ _ => rfl⟩
  | refuse now shard copy workerEv phase =>
    exact shutdown.beforeClose (by rw [phase]; rfl) rfl rfl (fun _ => rfl)
  | retry now shard copy workerEv phase flag =>
    exact shutdown.beforeClose (by rw [phase]; rfl) rfl rfl (fun _ => rfl)
  | giveUp now shard copy workerEv phase closed =>
    exact shutdown.beforeClose (by rw [phase]; rfl) rfl rfl (fun _ => rfl)
  | join now i phase inside finished =>
    constructor
    · rw [shutdown.closed, phase]
      rfl
    · exact shutdown.emptied
    · exact shutdown.late
    · intro k joining j below
      cases joining
      rcases Nat.lt_succ_iff_lt_or_eq.mp below with earlier | rfl
      · exact shutdown.joined i phase j earlier
      · exact finished
    · intro returned
      cases returned
  | conclude now i phase last =>
    constructor
    · simp only [ShardedPipeline.conclude, shutdown.closed, phase]
      rfl
    · exact shutdown.emptied
    · exact shutdown.late
    · intro k joining
      cases joining
    · intro _
      exact ⟨fun j below => shutdown.joined i phase j (below.trans_le last), rfl, rfl⟩
  | handle i ev ring inside phase popped =>
    apply shutdown.setWorker <;> simp [Worker.handle, phase]
  | sawEmpty i inside phase => apply shutdown.setWorker <;> simp [phase]
  | resume i inside phase flag => apply shutdown.setWorker <;> simp [phase]
  | finish i inside phase closed =>
    have kept : ∀ j, (s.workers j).phase = .finished →
        ((s.finish i).workers j).phase = .finished :=
      (Function.forall_update_iff _ (fun j (w : Worker bits) => (s.workers j).phase = .finished →
        w.phase = .finished)).mpr ⟨fun _ => rfl, fun _ _ => id⟩
    constructor
    · exact shutdown.closed
    · exact shutdown.emptied
    · exact fun _ _ => closed
    · intro k joining j below
      exact kept j (shutdown.joined k joining j below)
    · intro returned
      obtain ⟨all, stats⟩ := shutdown.done returned
      exact ⟨fun j below => kept j (all j below), stats⟩

/-- What the producer has given out: the numbered events are the pushed ones and the one in
flight, each the copy of a submitted event, in order. -/
structure Flow (events : List BookEvent) (s : ShardedPipeline bits) : Prop where
  given : s.given = s.sent ++ s.producer.flight.toList.map (fun f => (f.1, f.2.2))
  flight : ∀ f ∈ s.producer.flight, f.1 = shardForSymbol f.2.1.symbol s.shardCount ∧
    f.2.2.unsequenced = f.2.1.unsequenced
  routed : s.sent.map (fun p => (p.1, p.2.unsequenced)) =
    s.routed.map (fun ev => (shardForSymbol ev.symbol s.shardCount, ev.unsequenced))
  submits : (s.routed ++ s.producer.flight.toList.map (fun f => f.2.1) ++ s.todo).map
    BookEvent.unstamped = events.map BookEvent.unstamped
  submitted : s.submittedEvents = s.sent.length

theorem create_flow : Flow events (create cfg events : ShardedPipeline bits) where
  given := rfl
  flight := by simp [create, ProducerPhase.flight]
  routed := rfl
  submits := by simp [create, ProducerPhase.flight]
  submitted := rfl

/-- Moves that push nothing and take nothing from the program keep the flow. -/
theorem Flow.same (flow : Flow events s) (flight : s'.producer.flight = s.producer.flight)
    (cfg : s'.cfg = s.cfg) (given : s'.given = s.given) (sent : s'.sent = s.sent)
    (routed : s'.routed = s.routed) (todo : s'.todo = s.todo)
    (submitted : s'.submittedEvents = s.submittedEvents) : Flow events s' := by
  have count : s'.shardCount = s.shardCount := congrArg ShardedPipelineConfig.shardCount cfg
  constructor
  · rw [given, sent, flight]
    exact flow.given
  · simp only [flight, count]
    exact flow.flight
  · simp only [sent, routed, count]
    exact flow.routed
  · rw [routed, flight, todo]
    exact flow.submits
  · rw [submitted, sent]
    exact flow.submitted

theorem Flow.number (flow : Flow events s) {now : UInt64} {ev : BookEvent} {rest : List BookEvent}
    (phase : s.producer = .ready) (todo : s.todo = ev :: rest) :
    Flow events (s.number outside now ev rest) := by
  have landed : s.producer.flight = none := by rw [phase]; rfl
  have given := flow.given
  have submits := flow.submits
  rw [landed] at given submits
  constructor
  · simpa [ShardedPipeline.number, ProducerPhase.flight] using given
  · intro f inFlight
    cases inFlight
    exact ⟨rfl, rfl⟩
  · exact flow.routed
  · rw [← submits, todo]
    simp [ShardedPipeline.number, ProducerPhase.flight, BookEvent.unstamped]
  · exact flow.submitted

theorem Flow.accept (flow : Flow events s) {shard : Nat} {copy workerEv : BookEvent}
    {ring : SpscRing BookEvent bits} (phase : s.producer = .pushing shard copy workerEv) :
    Flow events (s.accept shard copy workerEv ring) := by
  have flying : s.producer.flight = some (shard, copy, workerEv) := by rw [phase]; rfl
  obtain ⟨target, sameEvent⟩ : shard = shardForSymbol copy.symbol s.shardCount ∧
      workerEv.unsequenced = copy.unsequenced := flow.flight _ flying
  have given := flow.given
  have submits := flow.submits
  rw [flying] at given submits
  constructor
  · simpa using given
  · simp
  · simp only [accept_sent, accept_routed, accept_shardCount, List.map_append, List.map_cons,
      List.map_nil]
    rw [flow.routed, target, sameEvent]
  · simpa using submits
  · simpa using flow.submitted

theorem Flow.moved (flow : Flow events s) (shutdown : s.Shutdown) (moved : Moved outside s turn s') :
    Flow events s' := by
  cases moved with
  | idle => exact flow
  | number now ev rest phase todo => exact flow.number phase todo
  | close now phase todo => exact flow.same (by rw [phase]; rfl) rfl rfl rfl rfl rfl rfl
  | accept now shard copy workerEv ring phase pushed => exact flow.accept phase
  | refuse now shard copy workerEv phase => exact flow.same (by rw [phase]; rfl) rfl rfl rfl rfl rfl rfl
  | retry now shard copy workerEv phase opened =>
    exact flow.same (by rw [phase]; rfl) rfl rfl rfl rfl rfl rfl
  | giveUp now shard copy workerEv phase closed =>
    -- Only the producer itself closes the input, after its last submit.
    have opened := shutdown.closed
    rw [phase, closed] at opened
    cases opened
  | join now i phase inside finished => exact flow.same (by rw [phase]; rfl) rfl rfl rfl rfl rfl rfl
  | conclude now i phase last => exact flow.same (by rw [phase]; rfl) rfl rfl rfl rfl rfl rfl
  | handle i ev ring inside phase popped => exact flow.same rfl rfl rfl rfl rfl rfl rfl
  | sawEmpty i inside phase => exact flow.same rfl rfl rfl rfl rfl rfl rfl
  | resume i inside phase opened => exact flow.same rfl rfl rfl rfl rfl rfl rfl
  | finish i inside phase closed => exact flow.same rfl rfl rfl rfl rfl rfl rfl

/-- What one worker holds and has done: its ring is the part of the pushed events that it has
not handled yet, and its pipeline has been fed exactly the handled ones. -/
structure Worker.Lane (cfg : ShardedPipelineConfig) (pushed : List BookEvent)
    (w : Worker bits) : Prop where
  ring : ∃ waiting, w.ring.Queued waiting ∧ pushed = w.handled ++ waiting
  pipeline : w.pipeline =
    if w.phase = .finished then
      (Pipeline.run cfg.gapWindow cfg.perVenueCapacity w.handled).finalize.1
    else Pipeline.run cfg.gapWindow cfg.perVenueCapacity w.handled
  processed : w.processed = w.handled.length

/-- Every worker is in its lane, and a finished one has reported its count. -/
structure Lanes (s : ShardedPipeline bits) : Prop where
  lane : ∀ i, Worker.Lane s.cfg (s.sentTo i) (s.workers i)
  reported : ∀ i, (s.workers i).phase = .finished →
    s.stats.perShardEvents i = (s.workers i).handled.length

theorem create_lanes : Lanes (create cfg events : ShardedPipeline bits) where
  lane _ := ⟨⟨[], SpscRing.create_queued _, rfl⟩, rfl, rfl⟩
  reported _ finished := by cases finished

/-- What a worker has handled is the front of what it was sent. -/
theorem Lanes.handled_prefix (lanes : s.Lanes) (i : Nat) :
    (s.workers i).handled <+: s.sentTo i := by
  obtain ⟨waiting, _, split⟩ := (lanes.lane i).ring
  exact ⟨waiting, split.symm⟩

/-- A turn of one worker that pushes nothing. -/
theorem Lanes.setWorker (lanes : s.Lanes) {i : Nat} {w : Worker bits}
    (workers : s'.workers = Function.update s.workers i w) (sent : s'.sent = s.sent)
    (cfg : s'.cfg = s.cfg) (lane : Worker.Lane s.cfg (s.sentTo i) w)
    (reported : ∀ j, (s'.workers j).phase = .finished →
      s'.stats.perShardEvents j = (s'.workers j).handled.length) : s'.Lanes := by
  refine ⟨?_, reported⟩
  simp only [sentTo, sent, cfg, workers]
  exact (Function.forall_update_iff _ (fun j (w : Worker bits) => Worker.Lane s.cfg (s.sentTo j) w)).mpr
    ⟨lane, fun j _ => lanes.lane j⟩

/-- A turn of a worker that stays in its loop. -/
theorem Lanes.keepRunning (lanes : s.Lanes) {i : Nat} {w : Worker bits}
    (lane : Worker.Lane s.cfg (s.sentTo i) w) (running : w.phase ≠ .finished) :
    (s.setWorker i w).Lanes := by
  refine lanes.setWorker rfl rfl rfl lane ?_
  exact (Function.forall_update_iff _ (fun j (w : Worker bits) => w.phase = .finished →
    s.stats.perShardEvents j = w.handled.length)).mpr
      ⟨fun finished => absurd finished running, fun j _ => lanes.reported j⟩

theorem Lanes.same (lanes : s.Lanes) (sent : s'.sent = s.sent) (cfg : s'.cfg = s.cfg)
    (workers : s'.workers = s.workers)
    (reported : s'.stats.perShardEvents = s.stats.perShardEvents) : s'.Lanes := by
  constructor
  · intro i
    simp only [sentTo, sent, cfg, workers]
    exact lanes.lane i
  · intro i finished
    rw [workers] at finished ⊢
    rw [reported]
    exact lanes.reported i finished

theorem Lanes.accept (lanes : s.Lanes) {shard : Nat} {copy workerEv : BookEvent}
    {ring : SpscRing BookEvent bits}
    (pushed : (s.workers shard).ring.tryPush workerEv = some ring) :
    (s.accept shard copy workerEv ring).Lanes := by
  have target : (s.accept shard copy workerEv ring).workers =
      Function.update s.workers shard { s.workers shard with ring := ring } := rfl
  constructor
  · intro i
    rw [sentTo_append accept_sent, target]
    by_cases same : i = shard
    · subst same
      rw [if_pos rfl, Function.update_self]
      obtain ⟨⟨waiting, queued, split⟩, pipeline, processed⟩ := lanes.lane i
      refine ⟨⟨waiting ++ [workerEv], queued.tryPush_some pushed, ?_⟩, pipeline, processed⟩
      rw [split, List.append_assoc]
    · rw [if_neg same, Function.update_of_ne same]
      exact lanes.lane i
  · rw [target]
    exact (Function.forall_update_iff _ (fun j (w : Worker bits) => w.phase = .finished →
      s.stats.perShardEvents j = w.handled.length)).mpr
        ⟨lanes.reported shard, fun j _ => lanes.reported j⟩

/-- A pop hands the worker the oldest waiting event. -/
theorem Worker.Lane.handle {w : Worker bits} {pushed : List BookEvent}
    (lane : Worker.Lane cfg pushed w) {ev : BookEvent} {ring : SpscRing BookEvent bits}
    (phase : w.phase = .popping) (popped : w.ring.tryPop = some (ev, ring)) :
    Worker.Lane cfg pushed (w.handle ev ring) := by
  obtain ⟨⟨waiting, queued, split⟩, pipeline, processed⟩ := lane
  simp only [phase, reduceCtorEq, if_false] at pipeline
  cases waiting with
  | nil =>
    rw [queued.tryPop_nil] at popped
    cases popped
  | cons oldest later =>
    obtain ⟨rest, taken, queue⟩ := queued.tryPop_cons
    rw [popped] at taken
    cases taken
    constructor
    · exact ⟨later, queue, by simp only [FeedHandler.Worker.handle, split, List.append_assoc,
        List.singleton_append]⟩
    · simp only [FeedHandler.Worker.handle, phase, reduceCtorEq, if_false, pipeline, Pipeline.run,
        List.foldl_append, List.foldl_cons, List.foldl_nil]
    · simp only [FeedHandler.Worker.handle, processed, List.length_append, List.length_singleton]

/-- The loop tests change nothing but the place in the loop. -/
theorem Worker.Lane.wait {w : Worker bits} {pushed : List BookEvent} {phase : WorkerPhase}
    (lane : Worker.Lane cfg pushed w) (before : w.phase ≠ .finished) (after : phase ≠ .finished) :
    Worker.Lane cfg pushed { w with phase := phase } := by
  obtain ⟨ring, pipeline, processed⟩ := lane
  refine ⟨ring, ?_, processed⟩
  rw [if_neg before] at pipeline
  rw [if_neg after]
  exact pipeline

theorem Lanes.finish (lanes : s.Lanes) {i : Nat} (phase : (s.workers i).phase = .checking) :
    (s.finish i).Lanes := by
  obtain ⟨ring, pipeline, processed⟩ := lanes.lane i
  simp only [phase, reduceCtorEq, if_false] at pipeline
  have workers : (s.finish i).workers = Function.update s.workers i
      { s.workers i with
        pipeline := (s.workers i).pipeline.finalize.1
        phase := .finished } := rfl
  refine lanes.setWorker workers rfl rfl ⟨ring, ?_, processed⟩ ?_
  · simp only [if_true, pipeline]
  · intro j
    simp only [ShardedPipeline.finish, ShardedPipeline.setWorker]
    by_cases same : j = i
    · subst same
      rw [Function.update_self, Function.update_self]
      exact fun _ => processed
    · rw [Function.update_of_ne same, Function.update_of_ne same]
      exact lanes.reported j

theorem Lanes.moved (lanes : s.Lanes) (moved : Moved outside s turn s') : s'.Lanes := by
  cases moved with
  | idle => exact lanes
  | number now ev rest phase todo => exact lanes.same rfl rfl rfl rfl
  | close now phase todo => exact lanes.same rfl rfl rfl rfl
  | accept now shard copy workerEv ring phase pushed => exact lanes.accept pushed
  | refuse now shard copy workerEv phase => exact lanes.same rfl rfl rfl rfl
  | retry now shard copy workerEv phase opened => exact lanes.same rfl rfl rfl rfl
  | giveUp now shard copy workerEv phase closed => exact lanes.same rfl rfl rfl rfl
  | join now i phase inside finished => exact lanes.same rfl rfl rfl rfl
  | conclude now i phase last => exact lanes.same rfl rfl rfl rfl
  | handle i ev ring inside phase popped =>
    exact lanes.keepRunning ((lanes.lane i).handle phase popped) (by simp [FeedHandler.Worker.handle, phase])
  | sawEmpty i inside phase =>
    exact lanes.keepRunning ((lanes.lane i).wait (by simp [phase]) (by simp)) (by simp)
  | resume i inside phase opened =>
    exact lanes.keepRunning ((lanes.lane i).wait (by simp [phase]) (by simp)) (by simp)
  | finish i inside phase closed => exact lanes.finish phase

theorem moved_cfg (moved : Moved outside s turn s') : s'.cfg = s.cfg := by
  cases moved <;> rfl

/-- What holds in every state of every interleaving. -/
structure Invariant (cfg : ShardedPipelineConfig) (events : List BookEvent)
    (s : ShardedPipeline bits) : Prop where
  cfg : s.cfg = { cfg with shardCount := if cfg.shardCount = 0 then 1 else cfg.shardCount }
  shutdown : s.Shutdown
  flow : Flow events s
  lanes : s.Lanes

theorem create_invariant : Invariant cfg events (create cfg events : ShardedPipeline bits) :=
  ⟨rfl, create_shutdown, create_flow, create_lanes⟩

theorem Invariant.step (inv : Invariant cfg events s) (turn : Turn) :
    Invariant cfg events (step outside s turn) := by
  have moved := step_moved outside s turn
  exact ⟨(moved_cfg moved).trans inv.cfg, inv.shutdown.moved moved,
    inv.flow.moved inv.shutdown moved, inv.lanes.moved moved⟩

theorem run_invariant (bits : Nat) (outside : Outside) (cfg : ShardedPipelineConfig) (events : List BookEvent)
    (turns : List Turn) : Invariant cfg events (run outside cfg events turns : ShardedPipeline bits) :=
  Run.invariant (fun _ turn inv => inv.step turn) turns create_invariant

theorem Invariant.shards_pos (inv : Invariant cfg events s) : 0 < s.shardCount := by
  simp only [shardCount, inv.cfg]
  split <;> omega

end ShardedPipeline
end FeedHandler
