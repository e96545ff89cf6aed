import FeedHandler.Core.SpscRing
import FeedHandler.Phase2.Pipeline

/-! The sharded pipeline: one producer routes events by symbol to the rings of its
workers, each of which runs a pipeline of its own, and `finalize` closes the input,
joins the workers and computes the merged CRC. Threads are interleaved: a turn is
one atomic operation of the producer or of one worker, in the order of the source.
`Moved` lists what a turn can do, and every proof about runs starts from it. -/
namespace FeedHandler

def splitmix64Mix (v : UInt64) : UInt64 :=
  let v := v ^^^ (v >>> 30)
  let v := v * 0xbf58476d1ce4e5b9
  let v := v ^^^ (v >>> 27)
  let v := v * 0x94d049bb133111eb
  v ^^^ (v >>> 31)

def shardForSymbolU64 (symbolU64 : UInt64) (shardCount : Nat) : Nat :=
  if shardCount = 0 then 0 else (splitmix64Mix symbolU64).toNat % shardCount

def shardForSymbol (symbol : SymbolKey) (shardCount : Nat) : Nat :=
  shardForSymbolU64 symbol.asU64 shardCount

theorem shardForSymbol_lt (symbol : SymbolKey) {shardCount : Nat} (positive : 0 < shardCount) :
    shardForSymbol symbol shardCount < shardCount := by
  have nonzero : shardCount ≠ 0 := by omega
  simp only [shardForSymbol, shardForSymbolU64, nonzero, if_false]
  exact Nat.mod_lt _ positive

structure ShardedPipelineConfig where
  shardCount : Nat := 1
  gapWindow : Nat := 256
  perVenueCapacity : Nat := 4096

structure ShardedPipelineStats where
  submittedEvents : Nat := 0
  routedEvents : Nat := 0
  perShardEvents : Nat → Nat := fun _ => 0
  perShardPushRetries : Nat → Nat := fun _ => 0
  reaggregatorSortedInputFastPath : Bool := false
  reaggregatedCrc : UInt32 := 0

/-- What `submit` keeps of the accepted events for the merged CRC. -/
structure Reaggregation where
  routedEventsInSubmitOrder : List BookEvent := []
  lastReaggregatedEvent : Option BookEvent := none
  incrementalCrcOrdered : Bool := true
  incrementalReaggregatedCrc : UInt32 := 0

namespace Reaggregation

def lessEvent (a b : BookEvent) : Bool := DeterministicMerger.lessEvent a b

def isDeterministicOrdered : List BookEvent → Bool
  | a :: b :: rest => if lessEvent b a then false else isDeterministicOrdered (b :: rest)
  | _ => true

def updateIncrementalReaggregationCrc (r : Reaggregation) (ev : BookEvent) : Reaggregation :=
  let ordered := match r.lastReaggregatedEvent with
    | some last => if lessEvent ev last then false else r.incrementalCrcOrdered
    | none => r.incrementalCrcOrdered
  { r with
    incrementalCrcOrdered := ordered
    lastReaggregatedEvent := some ev
    incrementalReaggregatedCrc :=
      bif ordered then updateCrcFromBookEvent r.incrementalReaggregatedCrc ev
      else r.incrementalReaggregatedCrc }

/-- The part of `submit` after a successful push. -/
def accept (r : Reaggregation) (ev : BookEvent) : Reaggregation :=
  let r := r.updateIncrementalReaggregationCrc ev
  { r with routedEventsInSubmitOrder := r.routedEventsInSubmitOrder ++ [ev] }

/-- Both order checks passed: the CRC folded by `submit` is used. -/
def fastPath (r : Reaggregation) : Bool :=
  isDeterministicOrdered r.routedEventsInSubmitOrder && r.incrementalCrcOrdered

/-- The CRC of `finalize`: the incremental one on the fast path, else that of a merge. -/
def crc (r : Reaggregation) : UInt32 :=
  if r.fastPath then r.incrementalReaggregatedCrc
  else
    let merger := r.routedEventsInSubmitOrder.foldl (fun m ev => (m.push ev).1)
      ({ perVenueCapacity := 0 } : DeterministicMerger)
    merger.drainAll.1.foldl updateCrcFromBookEvent 0

end Reaggregation

/-- The counters of `local_seq_by_shard_`: three for each shard. -/
abbrev LocalSeq := Nat → Fin 3 → UInt64

/-- An increment outside the three counters of a shard is undefined behaviour. It is a
parameter of the model: any value and any change of the counters. -/
abbrev Outside := LocalSeq → Nat → Venue → UInt64 × LocalSeq

/-- `++local_seq_by_shard_[shard][venue_idx]`. -/
def LocalSeq.bump (table : LocalSeq) (outside : Outside) (shard : Nat) (venue : Venue) :
    UInt64 × LocalSeq :=
  if inside : venue.code.toNat < 3 then
    let seq := table shard ⟨venue.code.toNat, inside⟩ + 1
    (seq, Function.update table shard
      (Function.update (table shard) ⟨venue.code.toNat, inside⟩ seq))
  else outside table shard venue

/-- Where a worker stands in its loop. -/
inductive WorkerPhase where
  | popping | checking | finished
  deriving DecidableEq

/-- A worker. `handled` is the history of its `on_event` calls. -/
structure Worker (bits : Nat) where
  ring : SpscRing BookEvent bits
  pipeline : Pipeline
  processed : Nat := 0
  phase : WorkerPhase := .popping
  handled : List BookEvent := []

/-- The loop body of a worker after a pop that succeeded. -/
def Worker.handle {bits : Nat} (w : Worker bits) (ev : BookEvent) (ring : SpscRing BookEvent bits) :
    Worker bits :=
  { w with
    ring := ring
    pipeline := w.pipeline.onEvent ev
    processed := w.processed + 1
    handled := w.handled ++ [ev] }

/-- Where the producer stands: between calls, before a push, after a refused one, or in
`finalize` waiting for a worker, or returned from it. -/
inductive ProducerPhase where
  | ready
  | pushing (shard : Nat) (copy workerEv : BookEvent)
  | refused (shard : Nat) (copy workerEv : BookEvent)
  | joining (worker : Nat)
  | done
  deriving DecidableEq

/-- The whole system. `todo` is what the producer will still submit; `given` and `sent`
are histories: the events numbered by `submit`, and those it then pushed, with their shards. -/
structure ShardedPipeline (bits : Nat) where
  cfg : ShardedPipelineConfig
  workers : Nat → Worker bits
  localSeqByShard : LocalSeq := fun _ _ => 0
  reaggregation : Reaggregation := {}
  inputClosed : Bool := false
  submittedEvents : Nat := 0
  routedEvents : Nat := 0
  pushRetries : Nat → Nat := fun _ => 0
  stats : ShardedPipelineStats := {}
  producer : ProducerPhase := .ready
  todo : List BookEvent
  given : List (Nat × BookEvent) := []
  sent : List (Nat × BookEvent) := []

/-- One atomic operation of a thread; the producer's carries what its clock answers. -/
inductive Turn where
  | producer (now : UInt64)
  | worker (i : Nat)
  deriving DecidableEq

namespace ShardedPipeline

variable {bits : Nat}

def create (cfg : ShardedPipelineConfig) (events : List BookEvent) : ShardedPipeline bits where
  cfg := { cfg with shardCount := if cfg.shardCount = 0 then 1 else cfg.shardCount }
  workers := fun _ =>
    { ring := .create {}, pipeline := .create cfg.gapWindow cfg.perVenueCapacity }
  todo := events

abbrev shardCount (s : ShardedPipeline bits) : Nat := s.cfg.shardCount

def setWorker (s : ShardedPipeline bits) (i : Nat) (w : Worker bits) : ShardedPipeline bits :=
  { s with workers := Function.update s.workers i w }

/-- `submit` up to its first push: stamp, route and number the event. -/
def number (s : ShardedPipeline bits) (outside : Outside) (now : UInt64) (ev : BookEvent)
    (rest : List BookEvent) : ShardedPipeline bits :=
  let copy := { ev with ingestTsNs := now }
  let shard := shardForSymbol copy.symbol s.shardCount
  let bumped := s.localSeqByShard.bump outside shard copy.venue
  let workerEv := { copy with sequence := bumped.1 }
  { s with
    localSeqByShard := bumped.2
    producer := .pushing shard copy workerEv
    todo := rest
    given := s.given ++ [(shard, workerEv)] }

/-- `submit` after a push that succeeded. -/
def accept (s : ShardedPipeline bits) (shard : Nat) (copy workerEv : BookEvent)
    (ring : SpscRing BookEvent bits) : ShardedPipeline bits :=
  { s.setWorker shard { s.workers shard with ring := ring } with
    submittedEvents := s.submittedEvents + 1
    routedEvents := s.routedEvents + 1
    reaggregation := s.reaggregation.accept copy
    producer := .ready
    sent := s.sent ++ [(shard, workerEv)] }

def refuse (s : ShardedPipeline bits) (shard : Nat) (copy workerEv : BookEvent) :
    ShardedPipeline bits :=
  { s with
    pushRetries := Function.update s.pushRetries shard (s.pushRetries shard + 1)
    producer := .refused shard copy workerEv }

def closeInput (s : ShardedPipeline bits) : ShardedPipeline bits :=
  { s with inputClosed := true }

/-- `finalize` after the last join. -/
def conclude (s : ShardedPipeline bits) : ShardedPipeline bits :=
  { s with
    stats := { s.stats with
      submittedEvents := s.submittedEvents
      routedEvents := s.routedEvents
      perShardPushRetries := s.pushRetries
      reaggregatorSortedInputFastPath := s.reaggregation.fastPath
      reaggregatedCrc := s.reaggregation.crc }
    producer := .done }

def producerStep (outside : Outside) (s : ShardedPipeline bits) (now : UInt64) :
    ShardedPipeline bits :=
  match s.producer with
  | .ready =>
    match s.todo with
    | [] => { s.closeInput with producer := .joining 0 }
    | ev :: rest => s.number outside now ev rest
  | .pushing shard copy workerEv =>
    match (s.workers shard).ring.tryPush workerEv with
    | some ring => s.accept shard copy workerEv ring
    | none => s.refuse shard copy workerEv
  | .refused shard copy workerEv =>
    if s.inputClosed then { s with producer := .ready }
    else { s with producer := .pushing shard copy workerEv }
  | .joining i =>
    if i < s.shardCount then
      if (s.workers i).phase = .finished then { s with producer := .joining (i + 1) } else s
    else s.conclude
  | .done => s

/-- The end of a worker: finalize its pipeline and report its count. -/
def finish (s : ShardedPipeline bits) (i : Nat) : ShardedPipeline bits :=
  let w := s.workers i
  { s.setWorker i { w with pipeline := w.pipeline.finalize.1, phase := .finished } with
    stats := { s.stats with
      perShardEvents := Function.update s.stats.perShardEvents i w.processed } }

def workerStep (s : ShardedPipeline bits) (i : Nat) : ShardedPipeline bits :=
  let w := s.workers i
  match w.phase with
  | .popping =>
    match w.ring.tryPop with
    | some (ev, ring) => s.setWorker i (w.handle ev ring)
    | none => s.setWorker i { w with phase := .checking }
  | .checking =>
    if s.inputClosed then s.finish i else s.setWorker i { w with phase := .popping }
  | .finished => s

def step (outside : Outside) (s : ShardedPipeline bits) : Turn → ShardedPipeline bits
  | .producer now => s.producerStep outside now
  | .worker i => if i < s.shardCount then s.workerStep i else s

/-- A run of the threads on a list of events, from the constructor on. -/
def run (outside : Outside) (cfg : ShardedPipelineConfig) (events : List BookEvent)
    (turns : List Turn) : ShardedPipeline bits :=
  turns.foldl (step outside) (create cfg events)

/-- Everything a turn can do, with what the thread has seen. -/
inductive Moved (outside : Outside) (s : ShardedPipeline bits) :
    Turn → ShardedPipeline bits → Prop
  | idle (turn : Turn) : Moved outside s turn s
  | number (now : UInt64) (ev : BookEvent) (rest : List BookEvent) (phase : s.producer = .ready)
      (todo : s.todo = ev :: rest) : Moved outside s (.producer now) (s.number outside now ev rest)
  | close (now : UInt64) (phase : s.producer = .ready) (todo : s.todo = []) :
      Moved outside s (.producer now) { s.closeInput with producer := .joining 0 }
  | accept (now : UInt64) (shard : Nat) (copy workerEv : BookEvent)
      (ring : SpscRing BookEvent bits) (phase : s.producer = .pushing shard copy workerEv)
      (pushed : (s.workers shard).ring.tryPush workerEv = some ring) :
      Moved outside s (.producer now) (s.accept shard copy workerEv ring)
  | refuse (now : UInt64) (shard : Nat) (copy workerEv : BookEvent)
      (phase : s.producer = .pushing shard copy workerEv) :
      Moved outside s (.producer now) (s.refuse shard copy workerEv)
  | retry (now : UInt64) (shard : Nat) (copy workerEv : BookEvent)
      (phase : s.producer = .refused shard copy workerEv) (opened : s.inputClosed = false) :
      Moved outside s (.producer now) { s with producer := .pushing shard copy workerEv }
  | giveUp (now : UInt64) (shard : Nat) (copy workerEv : BookEvent)
      (phase : s.producer = .refused shard copy workerEv) (closed : s.inputClosed = true) :
      Moved outside s (.producer now) { s with producer := .ready }
  | join (now : UInt64) (i : Nat) (phase : s.producer = .joining i) (inside : i < s.shardCount)
      (finished : (s.workers i).phase = .finished) :
      Moved outside s (.producer now) { s with producer := .joining (i + 1) }
  | conclude (now : UInt64) (i : Nat) (phase : s.producer = .joining i)
      (last : s.shardCount ≤ i) : Moved outside s (.producer now) s.conclude
  | handle (i : Nat) (ev : BookEvent) (ring : SpscRing BookEvent bits) (inside : i < s.shardCount)
      (phase : (s.workers i).phase = .popping)
      (popped : (s.workers i).ring.tryPop = some (ev, ring)) :
      Moved outside s (.worker i) (s.setWorker i ((s.workers i).handle ev ring))
  | sawEmpty (i : Nat) (inside : i < s.shardCount) (phase : (s.workers i).phase = .popping) :
      Moved outside s (.worker i) (s.setWorker i { s.workers i with phase := .checking })
  | resume (i : Nat) (inside : i < s.shardCount) (phase : (s.workers i).phase = .checking)
      (opened : s.inputClosed = false) :
      Moved outside s (.worker i) (s.setWorker i { s.workers i with phase := .popping })
  | finish (i : Nat) (inside : i < s.shardCount) (phase : (s.workers i).phase = .checking)
      (closed : s.inputClosed = true) : Moved outside s (.worker i) (s.finish i)

theorem producerStep_moved (outside : Outside) (s : ShardedPipeline bits) (now : UInt64) :
    Moved outside s (.producer now) (s.producerStep outside now) := by
  simp only [producerStep]
  cases phase : s.producer with
  | ready =>
    cases todo : s.todo with
    | nil => exact .close now phase todo
    | cons ev rest => exact .number now ev rest phase todo
  | pushing shard copy workerEv =>
    simp only
    cases pushed : (s.workers shard).ring.tryPush workerEv with
    | none => exact .refuse now shard copy workerEv phase
    | some ring => exact .accept now shard copy workerEv ring phase pushed
  | refused shard copy workerEv =>
    simp only
    split
    · next closed => exact .giveUp now shard copy workerEv phase closed
    · next opened => exact .retry now shard copy workerEv phase (Bool.eq_false_iff.mpr opened)
  | joining i =>
    simp only
    split
    · next inside =>
      split
      · next finished => exact .join now i phase inside finished
      · exact .idle _
    · next last => exact .conclude now i phase (Nat.le_of_not_lt last)
  | done => exact .idle _

theorem workerStep_moved (outside : Outside) (s : ShardedPipeline bits) {i : Nat}
    (inside : i < s.shardCount) : Moved outside s (.worker i) (s.workerStep i) := by
  simp only [workerStep]
  cases phase : (s.workers i).phase with
  | popping =>
    simp only
    cases popped : (s.workers i).ring.tryPop with
    | none => exact .sawEmpty i inside phase
    | some answer => exact .handle i answer.1 answer.2 inside phase popped
  | checking =>
    simp only
    split
    · next closed => exact .finish i inside phase closed
    · next opened => exact .resume i inside phase (Bool.eq_false_iff.mpr opened)
  | finished => exact .idle _

theorem step_moved (outside : Outside) (s : ShardedPipeline bits) (turn : Turn) :
    Moved outside s turn (step outside s turn) := by
  cases turn with
  | producer now => exact producerStep_moved outside s now
  | worker i =>
    simp only [step]
    split
    · next inside => exact workerStep_moved outside s inside
    · exact .idle _

end ShardedPipeline
end FeedHandler
