import FeedHandler.Phase2.PipelineInOrder
import FeedHandler.Phase2.VenueFeed
import FeedHandler.Runtime.ShardedRuns

/-! The numbering that `submit` gives out. The counter table has three counters for
each shard while there are five venues: numbering is in bounds and free of gaps
exactly for the first three, as long as no counter comes round. -/
namespace FeedHandler
namespace ShardedPipeline
open DeterministicMerger (ofVenue)

variable {bits : Nat} {outside : Outside} {cfg : ShardedPipelineConfig} {events : List BookEvent}
  {s s' : ShardedPipeline bits} {turn : Turn}

/-- The events numbered for one shard, in order. -/
def givenTo (given : List (Nat × BookEvent)) (shard : Nat) : List BookEvent :=
  (given.filter (fun p => decide (p.1 = shard))).map Prod.snd

/-- Every counter that `submit` has incremented is in the table. -/
def InBounds (s : ShardedPipeline bits) : Prop :=
  ∀ p ∈ s.given, p.1 < s.shardCount ∧ p.2.venue.code.toNat < 3

/-- Each venue is numbered 1, 2, 3, ... in each shard. -/
def GapFree (s : ShardedPipeline bits) : Prop :=
  ∀ shard v, (ofVenue (givenTo s.given shard) v).map BookEvent.seq =
    List.range' 1 (ofVenue (givenTo s.given shard) v).length

/-- In-bounds, gap-free numbering, and every event that a worker processed was accepted. -/
structure Resequenced (s : ShardedPipeline bits) : Prop where
  inBounds : s.InBounds
  gapFree : s.GapFree
  accepted : ∀ i < s.shardCount,
    Pipeline.AllAccepted (s.workers i).pipeline.stats (s.workers i).processed

/-- Only the first three venues, and fewer than 2^64 events of each in any shard. -/
structure Numberable (shardCount : Nat) (events : List BookEvent) : Prop where
  venues : ∀ ev ∈ events, ev.venue.code.toNat < 3
  counts : ∀ shard v, (ofVenue (events.filter
    (fun ev => decide (shardForSymbol ev.symbol shardCount = shard))) v).length < wordSize

theorem givenTo_append (given : List (Nat × BookEvent)) (shard i : Nat) (ev : BookEvent) :
    givenTo (given ++ [(shard, ev)]) i =
      if i = shard then givenTo given i ++ [ev] else givenTo given i := by
  simp only [givenTo, List.filter_append, List.map_append]
  split
  · next same => simp [same]
  · next other =>
    have apart : ¬ shard = i := fun equal => other equal.symm
    simp [apart]

/-- While every access was in the table, a counter holds how many events it has numbered and
the sequences given out are those numbers, both modulo the word size. -/
def Numbered (s : ShardedPipeline bits) : Prop :=
  s.InBounds → ∀ shard v (inside : v.code.toNat < 3),
    (s.localSeqByShard shard ⟨v.code.toNat, inside⟩).toNat =
      (ofVenue (givenTo s.given shard) v).length % wordSize ∧
    (ofVenue (givenTo s.given shard) v).map BookEvent.seq =
      (List.range' 1 (ofVenue (givenTo s.given shard) v).length).map (· % wordSize)

theorem create_numbered : (create cfg events : ShardedPipeline bits).Numbered :=
  fun _ _ _ _ => ⟨rfl, rfl⟩

/-- The increment of a counter in the table. -/
theorem bump_inside (table : LocalSeq) (outside : Outside) (shard : Nat) {v : Venue}
    (inside : v.code.toNat < 3) :
    table.bump outside shard v =
      (table shard ⟨v.code.toNat, inside⟩ + 1, Function.update table shard
        (Function.update (table shard) ⟨v.code.toNat, inside⟩
          (table shard ⟨v.code.toNat, inside⟩ + 1))) := by
  simp only [LocalSeq.bump, inside, dif_pos]

theorem Numbered.number (numbered : s.Numbered) (now : UInt64) (ev : BookEvent)
    (rest : List BookEvent) : (s.number outside now ev rest).Numbered := by
  intro inBounds shard v inside
  have before : s.InBounds := fun p member => inBounds p (List.mem_append_left _ member)
  have venue : ev.venue.code.toNat < 3 :=
    (inBounds _ (List.mem_append_right _ (List.mem_singleton.mpr rfl))).2
  obtain ⟨counter, sequences⟩ := numbered before shard v inside
  simp only [ShardedPipeline.number, bump_inside _ outside _ venue, givenTo_append]
  by_cases target : shard = shardForSymbol ev.symbol s.shardCount
  · subst target
    rw [if_pos rfl, Function.update_self, Pipeline.ofVenue_append]
    by_cases same : v = ev.venue
    · subst same
      simp only [Function.update_self, List.length_append, List.length_singleton, List.map_append,
        List.map_cons, List.map_nil, BookEvent.seq]
      have next : (s.localSeqByShard (shardForSymbol ev.symbol s.shardCount)
          ⟨ev.venue.code.toNat, inside⟩ + 1).toNat = ((ofVenue (givenTo s.given
            (shardForSymbol ev.symbol s.shardCount)) ev.venue).length + 1) % wordSize := by
        rw [UInt64.toNat_add, counter]
        simp only [wordSize, UInt64.toNat_one, Nat.mod_add_mod]
      refine ⟨next, ?_⟩
      rw [List.range'_concat, List.map_append, ← sequences, next]
      simp only [List.map_cons, List.map_nil, Nat.one_mul, Nat.add_comm 1]
    · have apart : (⟨v.code.toNat, inside⟩ : Fin 3) ≠ ⟨ev.venue.code.toNat, venue⟩ := by
        intro equal
        have codes : v.code.toNat = ev.venue.code.toNat := Fin.mk.inj_iff.mp equal
        exact same (Venue.code_inj (UInt8.toNat_inj.mp codes))
      simp only [Function.update_of_ne same, Function.update_of_ne apart]
      exact ⟨counter, sequences⟩
  · rw [if_neg target, Function.update_of_ne target]
    exact ⟨counter, sequences⟩

theorem Numbered.moved (numbered : s.Numbered) (moved : Moved outside s turn s') :
    s'.Numbered := by
  cases moved with
  | number now ev rest phase todo => exact numbered.number now ev rest
  | _ => exact numbered

theorem run_numbered (outside : Outside) (cfg : ShardedPipelineConfig) (events : List BookEvent)
    (turns : List Turn) : (run outside cfg events turns : ShardedPipeline bits).Numbered :=
  Run.invariant (P := fun s : ShardedPipeline bits => s.Numbered)
    (fun _ turn numbered => numbered.moved (step_moved outside _ turn)) turns create_numbered

/-- The numbered events are, in order, the first ones of the program. -/
theorem Flow.given_events (flow : Flow events s) :
    s.given.map (fun p => (p.1, p.2.venue)) = (events.take s.given.length).map
      (fun ev => (shardForSymbol ev.symbol s.shardCount, ev.venue)) := by
  have copied : s.given.map (fun p => (p.1, p.2.unsequenced)) =
      (s.routed ++ s.producer.flight.toList.map (fun f => f.2.1)).map
        (fun ev => (shardForSymbol ev.symbol s.shardCount, ev.unsequenced)) := by
    rw [flow.given, List.map_append, List.map_append, flow.routed]
    congr 1
    cases flying : s.producer.flight with
    | none => rfl
    | some f =>
      obtain ⟨target, same⟩ := flow.flight f flying
      simp [target, same]
  have lengths := congrArg List.length copied
  rw [List.length_map, List.length_map] at lengths
  have submits := congrArg (List.take s.given.length) flow.submits
  rw [← List.map_take, ← List.map_take, List.take_left' lengths.symm] at submits
  have given := congrArg (List.map (fun q : Nat × BookEvent => (q.1, q.2.venue))) copied
  have begun := congrArg
    (List.map (fun ev : BookEvent => (shardForSymbol ev.symbol s.shardCount, ev.venue))) submits
  simp only [List.map_map] at given begun
  exact given.trans begun

theorem inBounds_iff (inv : Invariant cfg events s) :
    s.InBounds ↔ ∀ ev ∈ events.take s.given.length, ev.venue.code.toNat < 3 := by
  have pairs := inv.flow.given_events
  constructor
  · intro inBounds ev member
    have entry : (shardForSymbol ev.symbol s.shardCount, ev.venue) ∈
        s.given.map (fun p => (p.1, p.2.venue)) := by
      rw [pairs]
      exact List.mem_map_of_mem
        (f := fun ev : BookEvent => (shardForSymbol ev.symbol s.shardCount, ev.venue)) member
    obtain ⟨p, given, same⟩ := List.mem_map.mp entry
    obtain ⟨_, venue⟩ := Prod.mk.inj same
    rw [← venue]
    exact (inBounds p given).2
  · intro venues p member
    have entry : (p.1, p.2.venue) ∈ (events.take s.given.length).map
        (fun ev => (shardForSymbol ev.symbol s.shardCount, ev.venue)) := by
      rw [← pairs]
      exact List.mem_map_of_mem (f := fun p : Nat × BookEvent => (p.1, p.2.venue)) member
    obtain ⟨ev, begun, same⟩ := List.mem_map.mp entry
    obtain ⟨target, venue⟩ := Prod.mk.inj same
    rw [← target, ← venue]
    exact ⟨shardForSymbol_lt ev.symbol inv.shards_pos, venues ev begun⟩

/-- How many events of a venue a shard has been given, counted on the program. -/
theorem given_count (inv : Invariant cfg events s) (shard : Nat) (v : Venue) :
    (ofVenue (givenTo s.given shard) v).length =
      (ofVenue ((events.take s.given.length).filter
        (fun ev => decide (shardForSymbol ev.symbol s.shardCount = shard))) v).length := by
  have pairs := congrArg (fun l => (l.filter
    (fun q : Nat × Venue => decide (q.1 = shard) && decide (q.2 = v))).length) inv.flow.given_events
  simp only [List.filter_map, List.length_map] at pairs
  simp only [ofVenue, givenTo, List.filter_map, List.length_map, List.filter_filter]
  simpa only [Function.comp_def, Bool.and_comm] using pairs

theorem GapFree.count_lt (gapFree : s.GapFree) (shard : Nat) (v : Venue) :
    (ofVenue (givenTo s.given shard) v).length < wordSize := by
  by_cases empty : (ofVenue (givenTo s.given shard) v).length = 0
  · rw [empty]
    decide
  · have last : (ofVenue (givenTo s.given shard) v).length ∈
        (ofVenue (givenTo s.given shard) v).map BookEvent.seq := by
      rw [gapFree shard v, List.mem_range'_1]
      omega
    obtain ⟨ev, _, same⟩ := List.mem_map.mp last
    rw [← same]
    exact ev.seq_lt

/-- In-bounds counters that have not come round number without gaps. -/
theorem Numbered.gapFree (numbered : s.Numbered) (inBounds : s.InBounds)
    (counts : ∀ shard v, (ofVenue (givenTo s.given shard) v).length < wordSize) : s.GapFree := by
  intro shard v
  by_cases inside : v.code.toNat < 3
  · have plain : ∀ k ∈ List.range' 1 (ofVenue (givenTo s.given shard) v).length,
        k % wordSize = k := by
      intro k member
      have bound := List.mem_range'_1.mp member
      have limit := counts shard v
      exact Nat.mod_eq_of_lt (by omega)
    rw [(numbered inBounds shard v inside).2, List.map_congr_left plain, List.map_id']
  · have none : ofVenue (givenTo s.given shard) v = [] := by
      apply List.filter_eq_nil_iff.mpr
      intro ev member
      obtain ⟨p, given, rfl⟩ := List.mem_map.mp member
      have bound := (inBounds p (List.mem_of_mem_filter given)).2
      rintro same
      rw [decide_eq_true_eq] at same
      exact inside (same ▸ bound)
    rw [none]
    rfl

/-- A worker has only been given numbered events, oldest first. -/
theorem Invariant.handled_given (inv : Invariant cfg events s) (i : Nat) :
    (s.workers i).handled <+: givenTo s.given i := by
  refine (inv.lanes.handled_prefix i).trans ?_
  simp only [givenTo, inv.flow.given, List.filter_append, List.map_append]
  exact List.prefix_append _ _

/-- A gap-free numbering is accepted event by event. -/
theorem Invariant.all_accepted (inv : Invariant cfg events s) (gapFree : s.GapFree) (i : Nat) :
    Pipeline.AllAccepted (s.workers i).pipeline.stats (s.workers i).processed := by
  have counted : ∀ v, (ofVenue (s.workers i).handled v).map BookEvent.seq =
      List.range' 1 (ofVenue (s.workers i).handled v).length := by
    intro v
    have feed : IsFeed v (ofVenue (givenTo s.given i) v) :=
      ⟨fun ev member => by simpa using List.of_mem_filter member, gapFree i v⟩
    exact (feed.initial ((inv.handled_given i).filter _)).seqs
  have step := Pipeline.run_inStep s.cfg.gapWindow s.cfg.perVenueCapacity
    (Pipeline.follows_of_counted counted)
  obtain ⟨accepted, duplicates, buffered, tooLarge, overflow⟩ := step.stats
  rw [(inv.lanes.lane i).processed, (inv.lanes.lane i).pipeline]
  split
  · exact ⟨accepted, duplicates, buffered, tooLarge, overflow⟩
  · exact ⟨accepted, duplicates, buffered, tooLarge, overflow⟩

/-- In every state of every interleaving, the numbering is in bounds and without gaps and all
processed events are accepted, exactly if the events whose `submit` has begun are of the first
three venues, fewer than 2^64 of each in any shard. -/
theorem resequenced_iff (outside : Outside) (cfg : ShardedPipelineConfig)
    (events : List BookEvent) (turns : List Turn) :
    (run outside cfg events turns : ShardedPipeline bits).Resequenced ↔
      Numberable (run outside cfg events turns : ShardedPipeline bits).shardCount
        (events.take (run outside cfg events turns : ShardedPipeline bits).given.length) := by
  have inv := run_invariant bits outside cfg events turns
  constructor
  · rintro ⟨inBounds, gapFree, _⟩
    refine ⟨(inBounds_iff inv).mp inBounds, ?_⟩
    intro shard v
    rw [← given_count inv]
    exact gapFree.count_lt shard v
  · rintro ⟨venues, counts⟩
    have inBounds := (inBounds_iff inv).mpr venues
    have gapFree := (run_numbered outside cfg events turns).gapFree inBounds
      (fun shard v => by rw [given_count inv]; exact counts shard v)
    exact ⟨inBounds, gapFree, fun i _ => inv.all_accepted gapFree i⟩

/-- The first CME event already numbers outside the table. -/
theorem cme_numbered_outside :
    ¬ ∀ (outside : Outside) (cfg : ShardedPipelineConfig) (events : List BookEvent)
        (turns : List Turn),
      (run outside cfg events turns : ShardedPipeline 14).Resequenced := by
  intro claim
  have inBounds := (claim (fun table _ _ => (1, table)) {} [{ venue := .cme, sequence := 1 }]
    [.producer 0]).inBounds
  exact absurd (inBounds _ (List.mem_singleton.mpr rfl)).2 (by decide)

end ShardedPipeline
end FeedHandler
