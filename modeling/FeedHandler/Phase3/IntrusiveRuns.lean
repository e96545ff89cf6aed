import FeedHandler.Phase3.IntrusiveInvariant

/-! Runs of the intrusive book. Every event is one of three changes or none: an order enters,
shrinks or leaves. The representation therefore survives every stream of events. -/
namespace FeedHandler
namespace IntrusiveOrderBook
open LinkedQueue

variable {capacity : Nat} {b b' : IntrusiveOrderBook capacity} {size : Nat}
  {reserve free : List UInt32} {queue : Place → List UInt32} {ev : BookEvent} {i : UInt32}
  {key : UInt64}

def step (b : IntrusiveOrderBook capacity) (ev : BookEvent) : IntrusiveOrderBook capacity :=
  (b.onEvent ev).1

/-- Below the null index no index is truncated. -/
theorem toNat_ofNat (proper : size ≤ kNull.toNat) {n : Nat} (bound : n < size) :
    (UInt32.ofNat n).toNat = n := by
  have wide : kNull.toNat = 2 ^ 32 - 1 := rfl
  exact Nat.mod_eq_of_lt (by omega)

/-- A pool of which the first `size` indices are handed out before the others. -/
theorem create_represents (proper : size ≤ kNull.toNat) (within : size ≤ capacity) :
    Represents (create capacity) size ((List.range (capacity - size)).map fun n => .ofNat (size + n))
      ((List.range size).map .ofNat) (fun _ => []) := by
  have back : ∀ n < size, (UInt32.ofNat n).toNat = n := fun _ => toNat_ofNat proper
  refine ⟨⟨?_, ?_, ?_, ?_, ?_⟩, ⟨?_, ?_, ?_, ?_, ?_⟩, ?_⟩
  · have whole : capacity = size + (capacity - size) := by omega
    simp only [create]
    conv_lhs => rw [whole, List.range_add, List.map_append, List.map_map]
    rfl
  · refine List.Nodup.map_on ?_ List.nodup_range
    intro m first n second same
    rw [← back m (List.mem_range.mp first), ← back n (List.mem_range.mp second), same]
  · intro j
    constructor
    · intro member
      obtain ⟨n, inRange, rfl⟩ := List.mem_map.mp member
      have bound := List.mem_range.mp inRange
      exact ⟨by rwa [back n bound], rfl⟩
    · rintro ⟨bound, _⟩
      exact List.mem_map.mpr ⟨j.toNat, List.mem_range.mpr bound, UInt32.ofNat_toNat⟩
  · exact fun j live => absurd live Bool.false_ne_true
  · simp [create]
  · exact fun _ => List.nodup_nil
  · intro p j
    exact iff_of_false List.not_mem_nil (fun filed => Bool.false_ne_true filed.1)
  · exact fun j live => absurd live Bool.false_ne_true
  · intro p known
    refine ⟨fun _ => rfl, fun _ => ?_⟩
    simp only [levelAt, sideAt, create, VenueBook.sideBook]
    split <;> rfl
  · intro p level known found
    simp only [levelAt, sideAt, create, VenueBook.sideBook] at found
    split at found <;> cases found
  · exact fun _ _ found => absurd found.symm (Option.some_ne_none _)

/-- An invariant of the representation does not see the counter of dropped orders. -/
theorem Represents.same (rep : Represents b size reserve free queue)
    (books : b'.books = b.books) (nodes : b'.nodes = b.nodes) (freeList : b'.freeList = b.freeList)
    (index : b'.orderIndex = b.orderIndex) (count : b'.liveOrderCount = b.liveOrderCount) :
    Represents b' size reserve free queue := by
  obtain ⟨books', nodes', freeList', index', count', dropped'⟩ := b'
  subst books nodes freeList index count
  exact ⟨⟨rep.pool.freeList, rep.pool.nodup, rep.pool.mem_free, rep.pool.live_lt, rep.pool.count⟩,
    ⟨rep.levels.nodup, rep.levels.mem_queue, rep.levels.known, rep.levels.level_iff,
      rep.levels.queueOk⟩, rep.index⟩

theorem addOrder_unsided (unsided : ev.side = .unknown) : b.addOrder ev = (b, true, 0) := by
  simp [addOrder, unsided]

theorem addOrder_exhausted (known : ev.side ≠ .unknown) (empty : b.freeList = []) :
    b.addOrder ev = ({ b with droppedOrderInserts := b.droppedOrderInserts + 1 }, false, 0) := by
  have sided : ¬ (ev.side ≠ .buy ∧ ev.side ≠ .sell) := by
    cases side : ev.side <;> simp_all
  simp only [addOrder, allocateNode, empty, if_neg sided, if_true]

/-- Either the event has no side, or the pool is exhausted, or the order enters. -/
theorem Represents.addOrder_cases (rep : Represents b size reserve free queue)
    (proper : size ≤ kNull.toNat) (room : reserve = [] ∨ free ≠ []) (ev : BookEvent) :
    (ev.side = .unknown ∧ b.addOrder ev = (b, true, 0)) ∨
    (ev.side ≠ .unknown ∧ free = [] ∧
      b.addOrder ev = ({ b with droppedOrderInserts := b.droppedOrderInserts + 1 }, false, 0)) ∨
    (ev.side ≠ .unknown ∧ ∃ i rest, free = i :: rest ∧ Added b ev i (b.addOrder ev).1 ∧
      (b.addOrder ev).2.1 = true ∧ (b.addOrder ev).2.2 = (b.levelOr (eventPlace ev)).qty) := by
  by_cases known : ev.side = .unknown
  · exact Or.inl ⟨known, addOrder_unsided known⟩
  · cases free with
    | nil =>
      have empty : b.freeList = [] := by
        rw [rep.pool.freeList, room.resolve_right (fun some => some rfl), List.append_nil]
      exact Or.inr (Or.inl ⟨known, rfl, addOrder_exhausted known empty⟩)
    | cons i rest =>
      exact Or.inr (Or.inr ⟨known, i, rest, rfl,
        addOrder_added known rep.pool.freeList (rep.free_ne_null proper)⟩)

/-- A named order has a level: either it keeps a part of its quantity, or it leaves. -/
theorem Represents.reduceOrder_cases (rep : Represents b size reserve free queue)
    (proper : size ≤ kNull.toNat) (within : size ≤ capacity) (named : b.orderIndex key = some i)
    (qty : UInt32) (deleteAll : Bool) :
    (Shrunk b i (amount (b.nodes i) qty deleteAll) (b.reduceOrder key qty deleteAll) ∧
      (b.nodes i).qty - amount (b.nodes i) qty deleteAll ≠ 0 ∧ deleteAll = false) ∨
    (Removed b key i (amount (b.nodes i) qty deleteAll) (b.reduceOrder key qty deleteAll) ∧
      (b.nodes i).qty - amount (b.nodes i) qty deleteAll = 0) := by
  obtain ⟨live, _⟩ := rep.index key i named
  have known := rep.levels.known i live
  have inPool := rep.pool.live_lt i live
  have member : i ∈ queue (b.nodes i).place := (rep.levels.mem_queue _ i).mpr ⟨live, rfl⟩
  obtain ⟨level, found⟩ : ∃ level, b.levelAt (b.nodes i).place = some level := by
    apply Option.ne_none_iff_exists'.mp
    intro missing
    exact List.ne_nil_of_mem member ((rep.levels.level_iff _ known).mp missing)
  by_cases used : (b.nodes i).qty - amount (b.nodes i) qty deleteAll = 0 ∨ deleteAll = true
  · refine Or.inr ⟨reduceOrder_removed named found live (ne_null proper inPool)
      (lt_of_lt_of_le inPool within) used, ?_⟩
    rcases used with zero | all
    · exact zero
    · rw [amount, if_pos (Or.inl all)]
      exact UInt32.sub_self _
  · have stays := not_or.mp used
    exact Or.inl ⟨reduceOrder_shrunk named found used, stays.1,
      Bool.eq_false_iff.mpr stays.2⟩

theorem Represents.addOrder (rep : Represents b size reserve free queue)
    (proper : size ≤ kNull.toNat) (room : reserve = [] ∨ free ≠ []) :
    ∃ freed queue, Represents (b.addOrder ev).1 size reserve freed queue ∧
      free.length ≤ freed.length + 1 := by
  rcases rep.addOrder_cases proper room ev with ⟨_, same⟩ | ⟨_, _, same⟩ |
    ⟨known, i, rest, rfl, added, _⟩
  · rw [same]
    exact ⟨free, queue, rep, Nat.le_succ _⟩
  · rw [same]
    exact ⟨free, queue, rep.same rfl rfl rfl rfl rfl, Nat.le_succ _⟩
  · exact ⟨rest, _, rep.enter proper known added, Nat.le_refl _⟩

theorem Represents.reduceOrder (rep : Represents b size reserve free queue)
    (proper : size ≤ kNull.toNat) (within : size ≤ capacity) (key : UInt64) (qty : UInt32)
    (deleteAll : Bool) :
    ∃ freed queue, Represents (b.reduceOrder key qty deleteAll) size reserve freed queue ∧
      free <:+ freed := by
  cases named : b.orderIndex key with
  | none =>
    have same : b.reduceOrder key qty deleteAll = b := by simp only [IntrusiveOrderBook.reduceOrder, named]
    rw [same]
    exact ⟨free, queue, rep, List.suffix_refl _⟩
  | some i =>
    obtain ⟨live, _⟩ := rep.index key i named
    rcases rep.reduceOrder_cases proper within named qty deleteAll with
      ⟨shrunk, _⟩ | ⟨removed, used⟩
    · exact ⟨free, queue, rep.shrink live (amount_le _ _ _) shrunk, List.suffix_refl _⟩
    · obtain ⟨xs, ys, split⟩ := List.append_of_mem ((rep.levels.mem_queue _ i).mpr ⟨live, rfl⟩)
      exact ⟨i :: free, _, rep.leave live removed proper named (amount_le _ _ _) used split,
        List.suffix_cons i free⟩

theorem Represents.replaceOrder (rep : Represents b size reserve free queue)
    (proper : size ≤ kNull.toNat) (within : size ≤ capacity) (room : reserve = [] ∨ free ≠ []) :
    ∃ freed queue, Represents (b.replaceOrder ev) size reserve freed queue ∧
      free.length ≤ freed.length + 1 := by
  simp only [IntrusiveOrderBook.replaceOrder]
  split
  · exact rep.addOrder proper room
  · obtain ⟨freed, queue, reduced, grown⟩ := rep.reduceOrder proper within
      (OrderBookEngine.orderKey ev.venue ev.referenceOrderId) 0 true
    obtain ⟨left, queue, added, used⟩ := reduced.addOrder proper (room.imp_right fun some none =>
      some (List.suffix_nil.mp (none ▸ grown)))
    exact ⟨left, queue, added, grown.length_le.trans used⟩

/-- Step lemma: every event keeps the representation while the pool has room or nothing is
kept in reserve, and it uses up one free node at most. -/
theorem Represents.step (rep : Represents b size reserve free queue)
    (proper : size ≤ kNull.toNat) (within : size ≤ capacity) (room : reserve = [] ∨ free ≠ []) :
    ∃ freed queue, Represents (b.step ev) size reserve freed queue ∧
      free.length ≤ freed.length + 1 := by
  simp only [IntrusiveOrderBook.step, onEvent, apply]
  cases ev.type
  case add | addMpid =>
    by_cases nonzero : ev.orderId ≠ 0
    · simp only [if_pos nonzero]
      exact rep.addOrder proper room
    · simp only [if_neg nonzero]
      exact ⟨free, queue, rep, Nat.le_succ _⟩
  case execute | executePrice | cancel | delete =>
    obtain ⟨freed, queue, reduced, grown⟩ := rep.reduceOrder proper within _ _ _
    exact ⟨freed, queue, reduced, grown.length_le.trans (Nat.le_succ _)⟩
  case replace => exact rep.replaceOrder proper within room
  all_goals exact ⟨free, queue, rep, Nat.le_succ _⟩

/-- The live nodes and the free list are a partition of the pool. -/
structure Partitioned (b : IntrusiveOrderBook capacity) : Prop where
  nodup : b.freeList.Nodup
  mem_freeList : ∀ i, i ∈ b.freeList ↔ i.toNat < capacity ∧ (b.nodes i).live = false
  live_lt : ∀ i, (b.nodes i).live = true → i.toNat < capacity
  count : b.liveOrderCount = (List.range capacity).countP fun n => (b.nodes (.ofNat n)).live

/-- The live nodes are in the queues of their places: every level has one with its links, its
ends and its quantity, and no level is without a node. -/
structure Queued (b : IntrusiveOrderBook capacity) (queue : Place → List UInt32) : Prop where
  nodup : ∀ p, (queue p).Nodup
  mem_queue : ∀ p i, i ∈ queue p ↔ (b.nodes i).live = true ∧ (b.nodes i).place = p
  level : ∀ i, (b.nodes i).live = true →
    (b.nodes i).side ≠ .unknown ∧ ∃ level, b.levelAt (b.nodes i).place = some level
  queueOk : ∀ p level, p.side ≠ .unknown → b.levelAt p = some level →
    queue p ≠ [] ∧ QueueOk b.nodes level (queue p)

structure WellFormed (b : IntrusiveOrderBook capacity) : Prop where
  partitioned : b.Partitioned
  queued : ∃ queue, b.Queued queue
  index : b.IndexOk
  level_found : ∀ key i, b.orderIndex key = some i → b.levelAt (b.nodes i).place ≠ none

theorem PoolOk.live_count (proper : size ≤ kNull.toNat) (pool : PoolOk b size reserve free) :
    b.liveOrderCount = (List.range size).countP fun n => (b.nodes (.ofNat n)).live := by
  have indices : (free.map UInt32.toNat).Nodup :=
    pool.nodup.map (fun _ _ same => UInt32.toNat_inj.mp same)
  have dead : (free.map UInt32.toNat).Perm
      ((List.range size).filter fun n => ¬ (b.nodes (.ofNat n)).live = true) := by
    refine (List.perm_ext_iff_of_nodup indices (List.nodup_range.filter _)).mpr fun n => ?_
    simp only [List.mem_map, List.mem_filter, List.mem_range, decide_eq_true_eq, pool.mem_free]
    constructor
    · rintro ⟨j, ⟨bound, dead⟩, rfl⟩
      rw [UInt32.ofNat_toNat]
      exact ⟨bound, by simp [dead]⟩
    · rintro ⟨bound, dead⟩
      have index := toNat_ofNat proper bound
      exact ⟨.ofNat n, ⟨index.symm ▸ bound, by simpa using dead⟩, index⟩
  have whole := List.length_eq_countP_add_countP (fun n => (b.nodes (.ofNat n)).live)
    (l := List.range size)
  have length := dead.length_eq
  have count := pool.count
  rw [List.length_map, ← List.countP_eq_length_filter] at length
  rw [List.length_range] at whole
  omega

theorem PoolOk.partitioned (proper : capacity ≤ kNull.toNat) (pool : PoolOk b capacity [] free) :
    b.Partitioned := by
  have list : b.freeList = free := by rw [pool.freeList, List.append_nil]
  exact ⟨list ▸ pool.nodup, fun i => list ▸ pool.mem_free i, pool.live_lt, pool.live_count proper⟩

theorem Represents.wellFormed (proper : capacity ≤ kNull.toNat)
    (rep : Represents b capacity [] free queue) : b.WellFormed := by
  have level : ∀ i, (b.nodes i).live = true → b.levelAt (b.nodes i).place ≠ none := by
    intro i live missing
    have member : i ∈ queue (b.nodes i).place := (rep.levels.mem_queue _ i).mpr ⟨live, rfl⟩
    exact List.ne_nil_of_mem member
      ((rep.levels.level_iff _ (rep.levels.known i live)).mp missing)
  refine ⟨rep.pool.partitioned proper, ⟨queue, rep.levels.nodup, rep.levels.mem_queue, ?_, ?_⟩,
    rep.index, fun key i named => level i (rep.index key i named).1⟩
  · exact fun i live => ⟨rep.levels.known i live, Option.ne_none_iff_exists'.mp (level i live)⟩
  · intro p found known present
    refine ⟨fun empty => ?_, rep.levels.queueOk p found known present⟩
    rw [(rep.levels.level_iff p known).mpr empty] at present
    cases present

/-- After every stream of events the book is well formed, so that a reduction always finds the
level of the order it takes from. -/
theorem run_wellFormed (capacity : Nat) (small : capacity < 2 ^ 32 - 1)
    (events : List BookEvent) : (events.foldl step (create capacity)).WellFormed := by
  have proper : capacity ≤ kNull.toNat := small.le
  have start : ∃ free queue, Represents (create capacity) capacity [] free queue := by
    have created := create_represents proper (Nat.le_refl capacity)
    rw [Nat.sub_self] at created
    exact ⟨_, _, created⟩
  have keep : ∀ (b : IntrusiveOrderBook capacity) ev, (∃ free queue, Represents b capacity [] free queue) →
      ∃ free queue, Represents (step b ev) capacity [] free queue := by
    rintro b ev ⟨free, queue, rep⟩
    obtain ⟨freed, queue, kept, _⟩ := rep.step proper (Nat.le_refl capacity) (Or.inl rfl)
    exact ⟨freed, queue, kept⟩
  have run := Run.invariant keep events start
  obtain ⟨_, _, rep⟩ := run
  exact rep.wellFormed proper

/-- An id twice, a third order that finds the pool of two exhausted, and a Delete that leaves
the first order without a key. -/
def duplicateStream : List BookEvent :=
  [{ type := .add, orderId := 1, side := .buy, price := 1000000, qty := 10 },
    { type := .add, orderId := 1, side := .buy, price := 1000000, qty := 20 },
    { type := .add, orderId := 2, side := .sell, price := 1010000, qty := 30 },
    { type := .delete, orderId := 1 }]

theorem run_wellFormed_duplicate :
    (duplicateStream.foldl step (create 2)).WellFormed ∧
      (duplicateStream.foldl step (create 2)).liveOrderCount = 1 :=
  ⟨run_wellFormed 2 (by decide) duplicateStream, by decide +kernel⟩

end IntrusiveOrderBook
end FeedHandler
