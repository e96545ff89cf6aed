import FeedHandler.Lib.Run
import FeedHandler.Phase3.IntrusiveQueues
import Mathlib.Algebra.Group.Action.Defs
import Mathlib.Algebra.Order.BigOperators.Group.List
import Mathlib.Data.List.Perm.Subperm

/-! The representation invariant of the intrusive book. Pool, levels and index are three
views of the same live nodes; the steps of the book keep them together for arbitrary
events, with duplicate ids, unknown references and an exhausted pool among them. -/
namespace FeedHandler
namespace IntrusiveOrderBook
open LinkedQueue

variable {capacity : Nat} {b b' : IntrusiveOrderBook capacity} {size : Nat}
  {reserve free : List UInt32} {queue : Place → List UInt32} {ev : BookEvent} {i : UInt32}

/-- The free nodes are on the free list, ahead of what is kept in reserve. -/
structure PoolOk (b : IntrusiveOrderBook capacity) (size : Nat) (reserve free : List UInt32) :
    Prop where
  freeList : b.freeList = free ++ reserve
  nodup : free.Nodup
  mem_free : ∀ i, i ∈ free ↔ i.toNat < size ∧ (b.nodes i).live = false
  live_lt : ∀ i, (b.nodes i).live = true → i.toNat < size
  count : b.liveOrderCount + free.length = size

/-- The live nodes are in the queues of their places, and the levels are those queues. -/
structure LevelsOk (b : IntrusiveOrderBook capacity) (queue : Place → List UInt32) : Prop where
  nodup : ∀ p, (queue p).Nodup
  mem_queue : ∀ p i, i ∈ queue p ↔ (b.nodes i).live = true ∧ (b.nodes i).place = p
  known : ∀ i, (b.nodes i).live = true → (b.nodes i).side ≠ .unknown
  level_iff : ∀ p, p.side ≠ .unknown → (b.levelAt p = none ↔ queue p = [])
  queueOk : ∀ p level, p.side ≠ .unknown → b.levelAt p = some level →
    QueueOk b.nodes level (queue p)

/-- Every key in the index leads to a live node with that key. -/
def IndexOk (b : IntrusiveOrderBook capacity) : Prop :=
  ∀ key i, b.orderIndex key = some i → (b.nodes i).live = true ∧ (b.nodes i).key = key

/-- What happens to the nodes when one queue changes: those that enter were not live, those
that left are live no more, and the nodes outside stay as they are. -/
structure QueueChange (nodes nodes' : UInt32 → OrderNode) (place : Place)
    (old new : List UInt32) : Prop where
  nodup : new.Nodup
  inside : ∀ j ∈ new, (nodes' j).live = true ∧ (nodes' j).place = place
  left : ∀ j ∈ old, j ∉ new → (nodes' j).live = false
  entered : ∀ j ∈ new, j ∉ old → (nodes j).live = false
  outside : ∀ j, j ∉ new → j ∉ old → nodes' j = nodes j

section Change

variable {place : Place} {q : List UInt32}
  (moved : QueueChange b.nodes b'.nodes place (queue place) q)

include moved

/-- A live node outside the new queue was outside the old one too. -/
theorem QueueChange.alive {j : UInt32} (live : (b'.nodes j).live = true) (notNew : j ∉ q) :
    j ∉ queue place ∧ b'.nodes j = b.nodes j := by
  have notOld : j ∉ queue place := by
    intro inPlace
    rw [moved.left j inPlace notNew] at live
    cases live
  exact ⟨notOld, moved.outside j notNew notOld⟩

variable (ok : LevelsOk b queue)

include ok

/-- A node of another queue is neither in the old queue nor in the new one. -/
theorem LevelsOk.apart {p : Place} (distinct : p ≠ place) {j : UInt32} (member : j ∈ queue p) :
    j ∉ q ∧ j ∉ queue place := by
  obtain ⟨live, own⟩ := (ok.mem_queue p j).mp member
  have elsewhere : j ∉ queue place := fun inPlace =>
    distinct (own.symm.trans ((ok.mem_queue place j).mp inPlace).2)
  refine ⟨fun inNew => ?_, elsewhere⟩
  rw [moved.entered j inNew elsewhere] at live
  cases live

theorem LevelsOk.mem_changed (p : Place) (j : UInt32) : j ∈ Function.update queue place q p ↔
    (b'.nodes j).live = true ∧ (b'.nodes j).place = p := by
  rw [Function.update_apply]
  split
  · next same =>
    subst same
    refine ⟨moved.inside j, fun ⟨live, own⟩ => ?_⟩
    by_contra notNew
    obtain ⟨notOld, same⟩ := moved.alive live notNew
    rw [same] at live own
    exact notOld ((ok.mem_queue p j).mpr ⟨live, own⟩)
  · next distinct =>
    constructor
    · intro member
      obtain ⟨notNew, notOld⟩ := ok.apart moved distinct member
      rw [moved.outside j notNew notOld]
      exact (ok.mem_queue p j).mp member
    · rintro ⟨live, own⟩
      have notNew : j ∉ q := fun inNew => distinct (own.symm.trans (moved.inside j inNew).2)
      obtain ⟨_, same⟩ := moved.alive live notNew
      rw [same] at live own
      exact (ok.mem_queue p j).mpr ⟨live, own⟩

/-- One queue and its level moved. -/
theorem LevelsOk.change {changed : Option Level} (known : place.side ≠ .unknown)
    (levels : ∀ p, p.side ≠ .unknown → b'.levelAt p = if p = place then changed else b.levelAt p)
    (exists_iff : changed = none ↔ q = [])
    (here : ∀ level, changed = some level → QueueOk b'.nodes level q) :
    LevelsOk b' (Function.update queue place q) := by
  constructor
  · intro p
    rw [Function.update_apply]
    split
    · exact moved.nodup
    · exact ok.nodup p
  · exact ok.mem_changed moved
  · intro j live
    by_cases inNew : j ∈ q
    · have own : (b'.nodes j).side = place.side := congrArg Place.side (moved.inside j inNew).2
      rw [own]
      exact known
    · obtain ⟨_, same⟩ := moved.alive live inNew
      rw [same] at live ⊢
      exact ok.known j live
  · intro p pKnown
    rw [levels p pKnown, Function.update_apply]
    split
    · exact exists_iff
    · exact ok.level_iff p pKnown
  · intro p level pKnown
    rw [levels p pKnown, Function.update_apply]
    split
    · exact here level
    · next distinct =>
      intro found
      refine (ok.queueOk p level pKnown found).congr ?_
      intro j member
      obtain ⟨notNew, notOld⟩ := ok.apart moved distinct member
      exact moved.outside j notNew notOld

end Change

/-- Distinct indices of the pool are no more than the pool has nodes. -/
theorem length_le_pool {q : List UInt32} (nodup : q.Nodup) (inPool : ∀ j ∈ q, j.toNat < size) :
    q.length ≤ size := by
  have indices : (q.map UInt32.toNat).Nodup :=
    nodup.map (fun _ _ same => UInt32.toNat_inj.mp same)
  have inRange : q.map UInt32.toNat ⊆ List.range size := by
    intro n member
    obtain ⟨j, inside, rfl⟩ := List.mem_map.mp member
    exact List.mem_range.mpr (inPool j inside)
  have length := (indices.subperm inRange).length_le
  rwa [List.length_map, List.length_range] at length

/-- A live queue fits into the pool, so its total stays within 64 bits. -/
theorem queue_sum_lt {q : List UInt32} {f : UInt32 → OrderNode} (nodup : q.Nodup)
    (proper : size ≤ kNull.toNat) (inPool : ∀ j ∈ q, j.toNat < size) :
    (q.map fun j => (f j).qty.toNat).sum < wordSize := by
  have count := length_le_pool nodup inPool
  have each : ∀ n ∈ q.map (fun j => (f j).qty.toNat), n ≤ 2 ^ 32 - 1 := by
    intro n member
    obtain ⟨j, _, rfl⟩ := List.mem_map.mp member
    have bound := (f j).qty.toNat_lt
    omega
  have total := List.sum_le_card_nsmul _ _ each
  rw [List.length_map, smul_eq_mul] at total
  have most : q.length * (2 ^ 32 - 1) ≤ kNull.toNat * (2 ^ 32 - 1) :=
    Nat.mul_le_mul_right _ (count.trans proper)
  refine lt_of_le_of_lt (total.trans most) ?_
  decide

/-- Where the order of an event goes. -/
def eventPlace (ev : BookEvent) : Place where
  venue := ev.venue
  symbol := ev.symbol.asU64
  side := ev.side
  price := ev.price

/-- The node of a new order, before it is linked. -/
def newNode (ev : BookEvent) : OrderNode where
  key := OrderBookEngine.orderKey ev.venue ev.orderId
  symbolU64 := ev.symbol.asU64
  price := ev.price
  qty := ev.qty
  venue := ev.venue
  side := ev.side
  live := true

/-- The level at a place, empty if there is none. -/
def levelOr (b : IntrusiveOrderBook capacity) (p : Place) : Level :=
  (b.levelAt p).getD { price := p.price }

/-- What entering an order into a free node does. -/
structure Added (b : IntrusiveOrderBook capacity) (ev : BookEvent) (i : UInt32)
    (b' : IntrusiveOrderBook capacity) : Prop where
  nodes : b'.nodes = (appendNode b.nodes (b.levelOr (eventPlace ev)) i (newNode ev)).1
  books : b'.books = (b.setSideAt (eventPlace ev)
    (((b.sideAt (eventPlace ev)).findOrAddLevel ev.price).1.setLevel ev.price
      (appendNode b.nodes (b.levelOr (eventPlace ev)) i (newNode ev)).2)).books
  freeList : b.freeList = i :: b'.freeList
  count : b'.liveOrderCount = b.liveOrderCount + 1
  index : b'.orderIndex =
    Function.update b.orderIndex (OrderBookEngine.orderKey ev.venue ev.orderId) (some i)

theorem appendNode_idem {nodes : UInt32 → OrderNode} {level : Level} {node other : OrderNode} :
    appendNode (Function.update nodes i other) level i node = appendNode nodes level i node := by
  simp only [appendNode, Function.update_idem]

theorem addOrder_added {rest : List UInt32} (known : ev.side ≠ .unknown)
    (first : b.freeList = i :: rest) (proper : i ≠ kNull) :
    Added b ev i (b.addOrder ev).1 ∧ (b.addOrder ev).2.1 = true ∧
      (b.addOrder ev).2.2 = (b.levelOr (eventPlace ev)).qty := by
  have sided : ¬ (ev.side ≠ .buy ∧ ev.side ≠ .sell) := by
    cases side : ev.side <;> simp_all
  have level : (((b.books ev.venue ev.symbol.asU64).sideBook ev.side).findOrAddLevel ev.price).2 =
      b.levelOr (eventPlace ev) := findOrAddLevel_snd
  simp only [addOrder, allocateNode, first, if_neg sided, if_neg proper, level, appendNode_idem,
    Function.update_self]
  exact ⟨⟨rfl, rfl, first, rfl, rfl⟩, trivial, trivial⟩

theorem Added.levelAt (added : Added b ev i b') (known : ev.side ≠ .unknown) (p : Place)
    (pKnown : p.side ≠ .unknown) : b'.levelAt p = if p = eventPlace ev then
      some (appendNode b.nodes (b.levelOr (eventPlace ev)) i (newNode ev)).2 else b.levelAt p := by
  refine levelAt_change known pKnown added.books fun price => ?_
  rw [lookup_setLevel]
  by_cases same : price = ev.price
  · exact (if_pos same).trans (if_pos same).symm
  · exact (if_neg same).trans ((lookup_findOrAddLevel same).trans (if_neg same).symm)

/-- The pool, the levels and the index are in order. -/
structure Represents (b : IntrusiveOrderBook capacity) (size : Nat) (reserve free : List UInt32)
    (queue : Place → List UInt32) : Prop where
  pool : PoolOk b size reserve free
  levels : LevelsOk b queue
  index : IndexOk b

theorem LevelsOk.queueOk_levelOr (ok : LevelsOk b queue) {p : Place} (known : p.side ≠ .unknown) :
    QueueOk b.nodes (b.levelOr p) (queue p) := by
  simp only [levelOr]
  cases found : b.levelAt p with
  | none =>
    rw [(ok.level_iff p known).mp found]
    exact queueOk_nil p.price
  | some level => exact ok.queueOk p level known found

theorem ne_null (proper : size ≤ kNull.toNat) {j : UInt32} (inPool : j.toNat < size) :
    j ≠ kNull := by
  rintro rfl
  omega

/-- The nodes of a queue are in the pool. -/
theorem Represents.queue_lt (rep : Represents b size reserve free queue) {p : Place} {j : UInt32}
    (member : j ∈ queue p) : j.toNat < size :=
  rep.pool.live_lt j ((rep.levels.mem_queue p j).mp member).1

/-- A level has at least what one of its orders has. -/
theorem Represents.qty_le_level (rep : Represents b size reserve free queue)
    (live : (b.nodes i).live = true) :
    (b.nodes i).qty.toNat ≤ (b.levelOr (b.nodes i).place).qty.toNat := by
  rw [(rep.levels.queueOk_levelOr (rep.levels.known i live)).qty]
  exact List.single_le_sum (fun _ _ => Nat.zero_le _) _ (List.mem_map_of_mem
    (f := fun j => (b.nodes j).qty.toNat) ((rep.levels.mem_queue _ i).mpr ⟨live, rfl⟩))

/-- Another key leads to another node. -/
theorem Represents.index_ne (rep : Represents b size reserve free queue) {key other : UInt64}
    {j : UInt32} (named : b.orderIndex key = some i) (distinct : other ≠ key)
    (found : b.orderIndex other = some j) : j ≠ i := by
  rintro rfl
  exact distinct ((rep.index other j found).2.symm.trans (rep.index key j named).2)

theorem Represents.null_notMem (rep : Represents b size reserve free queue)
    (proper : size ≤ kNull.toNat) (p : Place) : kNull ∉ queue p :=
  fun member => ne_null proper (rep.queue_lt member) rfl

/-- What entering an order does to the nodes, one by one. -/
theorem Added.node_eq (added : Added b ev i b') (apart : (b.levelOr (eventPlace ev)).tail ≠ i)
    (j : UInt32) : b'.nodes j =
      if j = i then { newNode ev with prev := (b.levelOr (eventPlace ev)).tail }
      else { b.nodes j with
        next := if j = (b.levelOr (eventPlace ev)).tail ∧ (b.levelOr (eventPlace ev)).tail ≠ kNull
          then i else (b.nodes j).next } := by
  rw [added.nodes, appendNode_nodes apart]

section Add

variable (rep : Represents b size reserve (i :: free) queue) (proper : size ≤ kNull.toNat)
  (known : ev.side ≠ .unknown) (added : Added b ev i b')

include rep

theorem Represents.free_notMem (p : Place) : i ∉ queue p := by
  intro member
  obtain ⟨_, dead⟩ := (rep.pool.mem_free i).mp (by simp)
  rw [((rep.levels.mem_queue p i).mp member).1] at dead
  cases dead

theorem Represents.free_ne_null (proper : size ≤ kNull.toNat) : i ≠ kNull :=
  ne_null proper ((rep.pool.mem_free i).mp (by simp)).1

theorem Represents.nodup_push (p : Place) : (queue p ++ [i]).Nodup := by
  refine List.nodup_append.mpr ⟨rep.levels.nodup p, List.nodup_singleton i, ?_⟩
  intro j member k single
  rw [List.mem_singleton.mp single]
  rintro rfl
  exact rep.free_notMem p member

include proper known

/-- The last node of the queue is not the free one. -/
theorem Represents.tail_ne_free : (b.levelOr (eventPlace ev)).tail ≠ i := by
  rw [(rep.levels.queueOk_levelOr known).tail]
  exact back_ne (rep.free_notMem _) (rep.free_ne_null proper)

theorem Represents.added_queueOk :
    QueueOk (appendNode b.nodes (b.levelOr (eventPlace ev)) i (newNode ev)).1
      (appendNode b.nodes (b.levelOr (eventPlace ev)) i (newNode ev)).2
      (queue (eventPlace ev) ++ [i]) := by
  have fresh := rep.free_notMem (eventPlace ev)
  refine (rep.levels.queueOk_levelOr known).push (rep.levels.nodup _) fresh
    (rep.null_notMem proper _) rfl (rep.free_ne_null proper) ?_
  have total := queue_sum_lt (f := Function.update b.nodes i (newNode ev))
    (rep.nodup_push (eventPlace ev)) proper ?_
  · have kept : ((queue (eventPlace ev)).map fun j =>
        (Function.update b.nodes i (newNode ev) j).qty.toNat) =
          (queue (eventPlace ev)).map fun j => (b.nodes j).qty.toNat := by
      refine List.map_congr_left fun j member => ?_
      have distinct : j ≠ i := fun same => fresh (same ▸ member)
      rw [Function.update_of_ne distinct]
    simpa [kept] using total
  · intro j member
    rcases List.mem_append.mp member with old | new
    · exact rep.queue_lt old
    · rw [List.mem_singleton.mp new]
      exact ((rep.pool.mem_free i).mp (by simp)).1

include added

theorem Represents.added_live {j : UInt32} (other : j ≠ i) :
    (b'.nodes j).live = (b.nodes j).live ∧ (b'.nodes j).place = (b.nodes j).place ∧
      (b'.nodes j).key = (b.nodes j).key := by
  rw [added.node_eq (rep.tail_ne_free proper known), if_neg other]
  exact ⟨rfl, rfl, rfl⟩

theorem Represents.added_pool : PoolOk b' size reserve free := by
  have own : (b'.nodes i).live = true := by
    rw [added.node_eq (rep.tail_ne_free proper known), if_pos rfl]
    rfl
  have kept := fun j other => (rep.added_live proper known added (j := j) other).1
  obtain ⟨notFree, nodup⟩ := List.nodup_cons.mp rep.pool.nodup
  have count := rep.pool.count
  constructor
  · have list := added.freeList
    rw [rep.pool.freeList] at list
    exact (List.cons.inj list).2.symm
  · exact nodup
  · intro j
    rcases eq_or_ne j i with rfl | other
    · simp [notFree, own]
    · rw [kept j other, ← rep.pool.mem_free, List.mem_cons, or_iff_right other]
  · intro j live
    rcases eq_or_ne j i with rfl | other
    · exact ((rep.pool.mem_free j).mp (by simp)).1
    · rw [kept j other] at live
      exact rep.pool.live_lt j live
  · rw [added.count]
    simp only [List.length_cons] at count
    omega

theorem Represents.added_index : IndexOk b' := by
  intro key j found
  rw [added.index, Function.update_apply] at found
  split at found
  · next same =>
    cases found
    rw [added.node_eq (rep.tail_ne_free proper known), if_pos rfl]
    exact ⟨rfl, same.symm⟩
  · obtain ⟨live, own⟩ := rep.index key j found
    have other : j ≠ i := by
      rintro rfl
      rw [((rep.pool.mem_free j).mp (by simp)).2] at live
      cases live
    obtain ⟨liveSame, _, keySame⟩ := rep.added_live proper known added other
    exact ⟨liveSame.trans live, keySame.trans own⟩

/-- Step lemma: an order enters at the end of its queue. -/
theorem Represents.enter : Represents b' size reserve free
    (Function.update queue (eventPlace ev) (queue (eventPlace ev) ++ [i])) := by
  refine ⟨rep.added_pool proper known added, ?_, rep.added_index proper known added⟩
  have own : b'.nodes i = { newNode ev with prev := (b.levelOr (eventPlace ev)).tail } := by
    rw [added.node_eq (rep.tail_ne_free proper known), if_pos rfl]
  refine rep.levels.change ⟨rep.nodup_push _, ?_, ?_, ?_, ?_⟩ known (added.levelAt known) ?_ ?_
  · intro j member
    rcases List.mem_append.mp member with old | new
    · have other : j ≠ i := fun same => rep.free_notMem _ (same ▸ old)
      obtain ⟨live, place, _⟩ := rep.added_live proper known added other
      rw [live, place]
      exact (rep.levels.mem_queue _ j).mp old
    · rw [List.mem_singleton.mp new, own]
      exact ⟨rfl, rfl⟩
  · exact fun j old left => absurd (List.mem_append_left _ old) left
  · intro j new old
    rcases List.mem_append.mp new with inside | single
    · exact absurd inside old
    · rw [List.mem_singleton.mp single]
      exact ((rep.pool.mem_free i).mp (by simp)).2
  · intro j new old
    have other : j ≠ i := fun same => new (by simp [same])
    rw [added.node_eq (rep.tail_ne_free proper known), if_neg other, if_neg]
    rintro ⟨last, tailed⟩
    rw [(rep.levels.queueOk_levelOr known).tail] at last tailed
    exact old (last ▸ back_mem_of_ne tailed)
  · simp
  · intro level changed
    rw [added.nodes, ← Option.some.inj changed]
    exact rep.added_queueOk proper known

end Add

/-- What a reduction takes off a node: all of it on demand, for quantity zero and for any
excess. -/
def amount (node : OrderNode) (qty : UInt32) (deleteAll : Bool) : UInt32 :=
  if deleteAll ∨ qty = 0 ∨ qty > node.qty then node.qty else qty

theorem amount_le (node : OrderNode) (qty : UInt32) (deleteAll : Bool) :
    amount node qty deleteAll ≤ node.qty := by
  simp only [amount]
  split
  · exact UInt32.le_refl _
  · next part => exact UInt32.not_lt.mp (fun more => part (Or.inr (Or.inr more)))

/-- Nothing is left exactly when all is taken. -/
theorem sub_eq_zero_iff {qty dec : UInt32} (enough : dec ≤ qty) : qty - dec = 0 ↔ qty ≤ dec := by
  rw [← UInt32.toNat_inj, UInt32.toNat_sub_of_le _ _ enough, UInt32.toNat_zero,
    Nat.sub_eq_zero_iff_le, UInt32.le_iff_toNat_le]

def OrderNode.less (node : OrderNode) (dec : UInt32) : OrderNode :=
  { node with qty := node.qty - dec }

def Level.less (level : Level) (dec : UInt32) : Level :=
  { level with qty := if level.qty > dec.toUInt64 then level.qty - dec.toUInt64 else 0 }

/-- The nodes and the level after a node that is used up is taken out of its queue. -/
def unlinked (b : IntrusiveOrderBook capacity) (i : UInt32) (dec : UInt32) :
    (UInt32 → OrderNode) × Level :=
  unlinkNode (Function.update b.nodes i ((b.nodes i).less dec))
    ((b.levelOr (b.nodes i).place).less dec) ((b.nodes i).less dec)

/-- A node loses quantity and stays. -/
structure Shrunk (b : IntrusiveOrderBook capacity) (i : UInt32) (dec : UInt32)
    (b' : IntrusiveOrderBook capacity) : Prop where
  nodes : b'.nodes = Function.update b.nodes i ((b.nodes i).less dec)
  books : b'.books = (b.setSideAt (b.nodes i).place
    ((b.sideAt (b.nodes i).place).setLevel (b.nodes i).price
      ((b.levelOr (b.nodes i).place).less dec))).books
  freeList : b'.freeList = b.freeList
  count : b'.liveOrderCount = b.liveOrderCount
  index : b'.orderIndex = b.orderIndex

/-- A node is used up and goes back to the pool. -/
structure Removed (b : IntrusiveOrderBook capacity) (key : UInt64) (i : UInt32) (dec : UInt32)
    (b' : IntrusiveOrderBook capacity) : Prop where
  nodes : b'.nodes = Function.update (b.unlinked i dec).1 i {}
  books : b'.books = (b.setSideAt (b.nodes i).place
    (((b.sideAt (b.nodes i).place).setLevel (b.nodes i).price
      (b.unlinked i dec).2).removeLevelIfEmpty (b.nodes i).price)).books
  freeList : b'.freeList = i :: b.freeList
  count : b'.liveOrderCount = b.liveOrderCount - 1
  index : b'.orderIndex = Function.update b.orderIndex key none

theorem Shrunk.levelAt {dec : UInt32} (shrunk : Shrunk b i dec b')
    (known : (b.nodes i).side ≠ .unknown) (p : Place) (pKnown : p.side ≠ .unknown) :
    b'.levelAt p = if p = (b.nodes i).place then
      some ((b.levelOr (b.nodes i).place).less dec) else b.levelAt p :=
  levelAt_change known pKnown shrunk.books fun _ => lookup_setLevel

theorem Removed.levelAt {key : UInt64} {dec : UInt32} (removed : Removed b key i dec b')
    (known : (b.nodes i).side ≠ .unknown) (p : Place) (pKnown : p.side ≠ .unknown) :
    b'.levelAt p = if p = (b.nodes i).place then
      (if (b.unlinked i dec).2.qty = 0 ∧ (b.unlinked i dec).2.head = kNull then none
        else some (b.unlinked i dec).2) else b.levelAt p := by
  refine levelAt_change known pKnown removed.books fun price => ?_
  rw [lookup_removeLevelIfEmpty (lookup_setLevel.trans (if_pos rfl)), lookup_setLevel]
  by_cases here : price = (b.nodes i).price
  · simp only [here, true_and, if_true]
    exact (if_pos rfl).symm
  · rw [if_neg (fun both => here both.1), if_neg here]
    exact (if_neg here).symm

section Reduce

variable {key : UInt64} {qty : UInt32} {deleteAll : Bool} {level : Level}
  (named : b.orderIndex key = some i) (found : b.levelAt (b.nodes i).place = some level)

include named found

theorem reduceOrder_shrunk
    (stays : ¬ ((b.nodes i).qty - amount (b.nodes i) qty deleteAll = 0 ∨ deleteAll = true)) :
    Shrunk b i (amount (b.nodes i) qty deleteAll) (b.reduceOrder key qty deleteAll) := by
  have lookup : ((b.books (b.nodes i).venue (b.nodes i).symbolU64).sideBook
      (b.nodes i).side).levels.lookup (b.nodes i).price = some level := found
  have same : b.levelOr (b.nodes i).place = level := by
    simp only [levelOr, found, Option.getD_some]
  simp only [reduceOrder, named, lookup]
  rw [← amount, if_neg stays, ← same]
  exact ⟨rfl, rfl, rfl, rfl, rfl⟩

theorem reduceOrder_removed (live : (b.nodes i).live = true) (proper : i ≠ kNull)
    (inPool : i.toNat < capacity)
    (used : (b.nodes i).qty - amount (b.nodes i) qty deleteAll = 0 ∨ deleteAll = true) :
    Removed b key i (amount (b.nodes i) qty deleteAll) (b.reduceOrder key qty deleteAll) := by
  have lookup : ((b.books (b.nodes i).venue (b.nodes i).symbolU64).sideBook
      (b.nodes i).side).levels.lookup (b.nodes i).price = some level := found
  have same : b.levelOr (b.nodes i).place = level := by
    simp only [levelOr, found, Option.getD_some]
  have kept : ((b.unlinked i (amount (b.nodes i) qty deleteAll)).1 i).live = true := by
    rw [unlinked, unlinkNode_nodes, Function.update_self]
    exact live
  have released : ¬ (i = kNull ∨ i.toNat ≥ capacity ∨
      ((b.unlinked i (amount (b.nodes i) qty deleteAll)).1 i).live = false) := by
    simp [proper, inPool, kept]
  have reduced : b.reduceOrder key qty deleteAll =
      (releaseNode { b with
        nodes := (b.unlinked i (amount (b.nodes i) qty deleteAll)).1
        orderIndex := Function.update b.orderIndex key none } i).setSideAt (b.nodes i).place
          (((b.sideAt (b.nodes i).place).setLevel (b.nodes i).price
            (b.unlinked i (amount (b.nodes i) qty deleteAll)).2).removeLevelIfEmpty
              (b.nodes i).price) := by
    simp only [reduceOrder, named, lookup, unlinked, same]
    rw [← amount, if_pos used]
    rfl
  rw [reduced, releaseNode, if_neg released]
  exact ⟨rfl, rfl, rfl, rfl, rfl⟩

end Reduce

/-- Step lemma: an order loses part of its quantity. -/
theorem Represents.shrink (rep : Represents b size reserve free queue)
    (live : (b.nodes i).live = true) {dec : UInt32} (enough : dec ≤ (b.nodes i).qty)
    (shrunk : Shrunk b i dec b') : Represents b' size reserve free queue := by
  have known := rep.levels.known i live
  have member : i ∈ queue (b.nodes i).place := (rep.levels.mem_queue _ i).mpr ⟨live, rfl⟩
  have node : ∀ j, b'.nodes j = if j = i then (b.nodes i).less dec else b.nodes j := by
    intro j
    rw [shrunk.nodes, Function.update_apply]
  have kept : ∀ j, (b'.nodes j).live = (b.nodes j).live ∧ (b'.nodes j).place = (b.nodes j).place ∧
      (b'.nodes j).key = (b.nodes j).key := by
    intro j
    rw [shrunk.nodes]
    exact ⟨update_field OrderNode.live (by rfl) j, update_field OrderNode.place (by rfl) j,
      update_field OrderNode.key (by rfl) j⟩
  refine ⟨⟨?_, rep.pool.nodup, ?_, ?_, ?_⟩, ?_, ?_⟩
  · rw [shrunk.freeList, rep.pool.freeList]
  · intro j
    rw [(kept j).1]
    exact rep.pool.mem_free j
  · intro j
    rw [(kept j).1]
    exact rep.pool.live_lt j
  · rw [shrunk.count]
    exact rep.pool.count
  · rw [← Function.update_eq_self (b.nodes i).place queue]
    refine rep.levels.change ⟨rep.levels.nodup _, ?_, ?_, ?_, ?_⟩ known (shrunk.levelAt known) ?_ ?_
    · intro j inside
      rw [(kept j).1, (kept j).2.1]
      exact (rep.levels.mem_queue _ j).mp inside
    · exact fun j inside outside => absurd inside outside
    · exact fun j inside outside => absurd inside outside
    · intro j outside _
      rw [node, if_neg]
      rintro rfl
      exact outside member
    · simp [List.ne_nil_of_mem member]
    · intro level changed
      rw [← Option.some.inj changed, shrunk.nodes]
      exact (rep.levels.queueOk_levelOr known).shrink (rep.levels.nodup _) member enough
  · intro key j found
    rw [shrunk.index] at found
    obtain ⟨alive, own⟩ := rep.index key j found
    exact ⟨(kept j).1.trans alive, (kept j).2.2.trans own⟩

section Remove

variable {key : UInt64} {dec : UInt32} (rep : Represents b size reserve free queue)
  (live : (b.nodes i).live = true) (removed : Removed b key i dec b')

theorem unlinked_node (j : UInt32) (other : j ≠ i) : (b.unlinked i dec).1 j =
    { b.nodes j with
      next := if j = (b.nodes i).prev ∧ (b.nodes i).prev ≠ kNull then (b.nodes i).next
        else (b.nodes j).next
      prev := if j = (b.nodes i).next ∧ (b.nodes i).next ≠ kNull then (b.nodes i).prev
        else (b.nodes j).prev } := by
  rw [unlinked, unlinkNode_nodes, Function.update_of_ne other]
  rfl

include removed in
theorem Removed.node_eq (j : UInt32) : b'.nodes j =
    if j = i then {} else (b.unlinked i dec).1 j := by
  rw [removed.nodes, Function.update_apply]

include removed in
theorem Removed.kept {j : UInt32} (other : j ≠ i) :
    (b'.nodes j).live = (b.nodes j).live ∧ (b'.nodes j).place = (b.nodes j).place ∧
      (b'.nodes j).key = (b.nodes j).key := by
  rw [removed.node_eq, if_neg other, unlinked_node j other]
  exact ⟨rfl, rfl, rfl⟩

include rep removed in
theorem Represents.removed_index (named : b.orderIndex key = some i) : IndexOk b' := by
  intro other j found
  rw [removed.index, Function.update_apply] at found
  split at found
  · cases found
  · next distinct =>
    obtain ⟨alive, own⟩ := rep.index other j found
    have apart := rep.index_ne named distinct found
    exact ⟨(removed.kept apart).1.trans alive, (removed.kept apart).2.2.trans own⟩

include rep live removed

theorem Represents.removed_pool : PoolOk b' size reserve (i :: free) := by
  have notFree : i ∉ free := by
    intro member
    rw [((rep.pool.mem_free i).mp member).2] at live
    cases live
  have nodup := List.nodup_cons.mpr ⟨notFree, rep.pool.nodup⟩
  have inPool := rep.pool.live_lt i live
  have dead : (b'.nodes i).live = false := by
    rw [removed.node_eq, if_pos rfl]
  constructor
  · rw [removed.freeList, rep.pool.freeList, List.cons_append]
  · exact nodup
  · intro j
    rcases eq_or_ne j i with rfl | other
    · simp [dead, inPool]
    · rw [(removed.kept other).1, ← rep.pool.mem_free, List.mem_cons, or_iff_right other]
  · intro j alive
    rcases eq_or_ne j i with rfl | other
    · exact inPool
    · rw [(removed.kept other).1] at alive
      exact rep.pool.live_lt j alive
  · have inside : ∀ j ∈ i :: free, j.toNat < size := by
      intro j member
      rcases List.mem_cons.mp member with rfl | inside
      · exact inPool
      · exact ((rep.pool.mem_free j).mp inside).1
    have fits := length_le_pool nodup inside
    have count := rep.pool.count
    rw [removed.count]
    simp only [List.length_cons] at fits ⊢
    omega

omit removed in
/-- The level without the node, as it is before it is looked at for removal. -/
theorem Represents.unlinked_queueOk (proper : size ≤ kNull.toNat)
    (enough : dec ≤ (b.nodes i).qty) (used : (b.nodes i).qty - dec = 0) {xs ys : List UInt32}
    (split : queue (b.nodes i).place = xs ++ i :: ys) :
    QueueOk (Function.update (b.unlinked i dec).1 i {}) (b.unlinked i dec).2 (xs ++ ys) := by
  have known := rep.levels.known i live
  have nodup := rep.levels.nodup (b.nodes i).place
  have notNull := rep.null_notMem proper (b.nodes i).place
  have whole := (rep.levels.queueOk_levelOr known).shrink nodup
    ((rep.levels.mem_queue _ i).mpr ⟨live, rfl⟩) enough
  rw [split] at nodup notNull whole
  have last := whole.unlink nodup notNull (by rw [Function.update_self]; exact used)
  rw [Function.update_self] at last
  exact last

/-- Step lemma: an order that is used up leaves its queue. -/
theorem Represents.leave (proper : size ≤ kNull.toNat) (named : b.orderIndex key = some i)
    (enough : dec ≤ (b.nodes i).qty) (used : (b.nodes i).qty - dec = 0) {xs ys : List UInt32}
    (split : queue (b.nodes i).place = xs ++ i :: ys) :
    Represents b' size reserve (i :: free)
      (Function.update queue (b.nodes i).place (xs ++ ys)) := by
  refine ⟨rep.removed_pool live removed, ?_, rep.removed_index removed named⟩
  have known := rep.levels.known i live
  have nodup := rep.levels.nodup (b.nodes i).place
  have notNull := rep.null_notMem proper (b.nodes i).place
  have queueOk := rep.unlinked_queueOk live proper enough used split
  obtain ⟨first, last⟩ := (split ▸ rep.levels.queueOk_levelOr known).linked.cell
  rw [split] at nodup notNull
  obtain ⟨absent, nodupLeft⟩ := List.nodup_cons.mp (List.nodup_middle.mp nodup)
  have members : ∀ j, j ∈ queue (b.nodes i).place ↔ j = i ∨ j ∈ xs ++ ys := by
    intro j
    rw [split, List.perm_middle.mem_iff, List.mem_cons]
  have nullLeft : kNull ∉ xs ++ ys := fun member =>
    notNull (List.perm_middle.mem_iff.mpr (List.mem_cons_of_mem _ member))
  refine rep.levels.change ⟨nodupLeft, ?_, ?_, ?_, ?_⟩ known (removed.levelAt known) ?_ ?_
  · intro j member
    have other : j ≠ i := fun same => absent (same ▸ member)
    rw [(removed.kept other).1, (removed.kept other).2.1]
    exact (rep.levels.mem_queue _ j).mp ((members j).mpr (Or.inr member))
  · intro j member outside
    rcases (members j).mp member with rfl | inside
    · rw [removed.node_eq, if_pos rfl]
    · exact absurd inside outside
  · exact fun j inside outside => absurd ((members j).mpr (Or.inr inside)) outside
  · intro j outside elsewhere
    have other : j ≠ i := fun same => elsewhere ((members j).mpr (Or.inl same))
    have notPrev : ¬ (j = (b.nodes i).prev ∧ (b.nodes i).prev ≠ kNull) := by
      rintro ⟨same, present⟩
      rw [first] at same present
      exact outside (List.mem_append_left _ (same ▸ back_mem_of_ne present))
    have notNext : ¬ (j = (b.nodes i).next ∧ (b.nodes i).next ≠ kNull) := by
      rintro ⟨same, present⟩
      rw [last] at same present
      exact outside (List.mem_append_right _ (same ▸ front_mem_of_ne present))
    rw [removed.node_eq, if_neg other, unlinked_node j other, if_neg notPrev, if_neg notNext]
  · rw [← queueOk.gone_iff nullLeft]
    split
    · next gone => exact iff_of_true rfl gone
    · next stays => exact iff_of_false (Option.some_ne_none _) stays
  · intro level changed
    rw [removed.nodes]
    split at changed
    · cases changed
    · rw [← Option.some.inj changed]
      exact queueOk

end Remove

end IntrusiveOrderBook
end FeedHandler
