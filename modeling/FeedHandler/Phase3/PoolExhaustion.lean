import FeedHandler.Phase3.IntrusiveRuns

/-! What the intrusive book says about orders it had no node for. An Add hands on what the
allocation said; a Replace throws it away, so an order that finds the pool exhausted is
dropped without a word unless the replaced order has just freed a node. -/
namespace FeedHandler
namespace IntrusiveOrderBook

variable {capacity : Nat} {b : IntrusiveOrderBook capacity} {ev : BookEvent} {key : UInt64}

/-- The node of the order that a Replace refers to. -/
def referencedNode (b : IntrusiveOrderBook capacity) (ev : BookEvent) : Option UInt32 :=
  b.orderIndex (OrderBookEngine.orderKey ev.venue ev.referenceOrderId)

/-- The side of the order that a Replace brings: its own, else that of the old order. -/
def newSide (b : IntrusiveOrderBook capacity) (ev : BookEvent) : Side :=
  match b.referencedNode ev with
  | none => ev.side
  | some idx => if ev.side = .unknown then (b.nodes idx).side else ev.side

/-- The order that an event asks the book to add, and the book it is added to. -/
def addCall (b : IntrusiveOrderBook capacity) (ev : BookEvent) :
    Option (IntrusiveOrderBook capacity × BookEvent) :=
  match ev.type with
  | .add | .addMpid => if ev.orderId ≠ 0 then some (b, ev) else none
  | .replace =>
    some (b.reduceOrder (OrderBookEngine.orderKey ev.venue ev.referenceOrderId) 0 true,
      { ev with side := b.newSide ev })
  | _ => none

/-- The event asks for an order to be added, and there is no node for it. -/
def DropsOrder (b : IntrusiveOrderBook capacity) (ev : BookEvent) : Prop :=
  ∃ call ∈ b.addCall ev, (call.1.addOrder call.2).2.1 = false

/-- No order is dropped silently: the answer says so, the counter says so, and an Add that
fails changes nothing else. -/
structure ReportsDrops (b : IntrusiveOrderBook capacity) (ev : BookEvent) : Prop where
  reported : (b.onEvent ev).2.orderPoolExhausted = true ↔ b.DropsOrder ev
  counted : b.DropsOrder ev ↔ (b.step ev).droppedOrderInserts ≠ b.droppedOrderInserts
  unchanged : ev.type.adds = true → (b.onEvent ev).2.orderPoolExhausted = true →
    (b.step ev).books = b.books ∧ (b.step ev).nodes = b.nodes ∧
      (b.step ev).orderIndex = b.orderIndex

/-- The old order of a Replace is in a node of the pool, which it gives back. -/
def FreesNode (b : IntrusiveOrderBook capacity) (ev : BookEvent) : Prop :=
  ∃ idx ∈ b.referencedNode ev, idx ≠ kNull ∧ idx.toNat < capacity ∧ (b.nodes idx).live = true

/-- An Add does not meet the null index among the free ones. A Replace has a free node, or
frees one, or brings an order without a side. -/
def NodeAvailable (b : IntrusiveOrderBook capacity) (ev : BookEvent) : Prop :=
  (ev.type.adds = true → ev.orderId ≠ 0 → ev.side ≠ .unknown → b.freeList.head? ≠ some kNull) ∧
    (ev.type = .replace → b.newSide ev ≠ .unknown →
      b.FreesNode ev ∨ ∃ idx, idx ≠ kNull ∧ b.freeList.head? = some idx)

theorem sided_iff (side : Side) : (side ≠ .buy ∧ side ≠ .sell) ↔ side = .unknown := by
  cases side <;> simp

theorem allocateNode_null : b.allocateNode.2 = kNull ↔
    b.freeList = [] ∨ b.freeList.head? = some kNull := by
  simp only [allocateNode]
  split
  · next free => simp [free]
  · next idx rest free => simp [free]

theorem allocateNode_dropped : b.allocateNode.1.droppedOrderInserts =
    b.droppedOrderInserts + if b.freeList = [] then 1 else 0 := by
  simp only [allocateNode]
  split
  · next free => simp [free]
  · next idx rest free => simp [free]

/-- An order with a side fails when no index is free, or when the free one is null. -/
theorem addOrder_fails_iff : (b.addOrder ev).2.1 = false ↔
    ev.side ≠ .unknown ∧ (b.freeList = [] ∨ b.freeList.head? = some kNull) := by
  by_cases known : ev.side = .unknown
  · simp [addOrder_unsided known, known]
  · rw [← allocateNode_null]
    simp only [addOrder, sided_iff, if_neg known]
    split
    · next null => simp [known, null]
    · next found => simp [found]

theorem addOrder_dropped : (b.addOrder ev).1.droppedOrderInserts =
    b.droppedOrderInserts + if ev.side ≠ .unknown ∧ b.freeList = [] then 1 else 0 := by
  by_cases known : ev.side = .unknown
  · simp [addOrder_unsided known, known]
  · have asked : (ev.side ≠ .unknown ∧ b.freeList = []) ↔ b.freeList = [] := and_iff_right known
    simp only [asked, ← allocateNode_dropped]
    simp only [addOrder, sided_iff, if_neg known]
    split <;> rfl

theorem releaseNode_dropped (idx : UInt32) :
    (b.releaseNode idx).droppedOrderInserts = b.droppedOrderInserts := by
  simp only [releaseNode]
  split <;> rfl

theorem reduceOrder_dropped (qty : UInt32) (deleteAll : Bool) :
    (b.reduceOrder key qty deleteAll).droppedOrderInserts = b.droppedOrderInserts := by
  simp only [reduceOrder]
  split
  · rfl
  · next idx named =>
    split
    · exact releaseNode_dropped _
    · generalize (if deleteAll = true ∨ qty = 0 ∨ qty > (b.nodes idx).qty then
        (b.nodes idx).qty else qty) = dec
      split
      · exact releaseNode_dropped _
      · rfl

theorem unlinkNode_live (nodes : UInt32 → OrderNode) (level : Level) (node : OrderNode)
    (j : UInt32) : ((unlinkNode nodes level node).1 j).live = (nodes j).live := by
  have update : ∀ (nodes : UInt32 → OrderNode) i (node : OrderNode), node.live = (nodes i).live →
      (Function.update nodes i node j).live = (nodes j).live := by
    intro nodes i node same
    rcases eq_or_ne j i with rfl | other
    · rw [Function.update_self, same]
    · rw [Function.update_of_ne other]
  simp only [unlinkNode]
  split <;> split <;> simp only [update]

/-- Deleting an order gives its node back, if it is a live node of the pool. -/
theorem reduceOrder_freeList {idx : UInt32} (named : b.orderIndex key = some idx) (qty : UInt32) :
    (b.reduceOrder key qty true).freeList =
      if idx = kNull ∨ idx.toNat ≥ capacity ∨ (b.nodes idx).live = false then b.freeList
      else idx :: b.freeList := by
  simp only [reduceOrder, named]
  split
  · simp only [releaseNode]
    split <;> rfl
  · simp only [or_true, if_true, releaseNode, unlinkNode_live, Function.update_self]
    split <;> rfl

/-- The free indices that the order of a Replace meets. -/
theorem freeList_replaced (b : IntrusiveOrderBook capacity) (ev : BookEvent) :
    (b.FreesNode ev ∧ ∃ idx, idx ≠ kNull ∧ (b.reduceOrder
        (OrderBookEngine.orderKey ev.venue ev.referenceOrderId) 0 true).freeList =
          idx :: b.freeList) ∨
      (¬ b.FreesNode ev ∧ (b.reduceOrder
        (OrderBookEngine.orderKey ev.venue ev.referenceOrderId) 0 true).freeList =
          b.freeList) := by
  simp only [FreesNode, referencedNode]
  cases named : b.orderIndex (OrderBookEngine.orderKey ev.venue ev.referenceOrderId) with
  | none =>
    refine Or.inr ⟨by simp, ?_⟩
    simp only [reduceOrder, named]
  | some idx =>
    rw [reduceOrder_freeList named]
    split
    · next kept =>
      refine Or.inr ⟨?_, rfl⟩
      rintro ⟨_, here, proper, inPool, live⟩
      cases here
      rcases kept with null | outside | dead
      · exact proper null
      · exact absurd inPool (Nat.not_lt.mpr outside)
      · rw [live] at dead
        cases dead
    · next freed =>
      simp only [not_or, ge_iff_le, Nat.not_le, Bool.not_eq_false] at freed
      exact Or.inl ⟨⟨idx, rfl, freed⟩, idx, freed.1, rfl⟩

/-- A Replace is one reduction and one addition, with the side of the new order. -/
theorem replaceOrder_newSide (b : IntrusiveOrderBook capacity) (ev : BookEvent) :
    b.replaceOrder ev = ((b.reduceOrder
      (OrderBookEngine.orderKey ev.venue ev.referenceOrderId) 0 true).addOrder
        { ev with side := b.newSide ev }).1 := by
  simp only [replaceOrder, newSide, referencedNode]
  cases named : b.orderIndex (OrderBookEngine.orderKey ev.venue ev.referenceOrderId) with
  | none => simp only [reduceOrder, named]
  | some idx => rfl

/-- An Add with an id asks for its order; it reports what the addition says. -/
theorem reportsDrops_add (adds : ev.type.adds = true) (nonzero : ev.orderId ≠ 0) :
    b.ReportsDrops ev ↔ (ev.side ≠ .unknown → b.freeList.head? ≠ some kNull) := by
  have call : b.addCall ev = some (b, ev) := by
    simp only [addCall]
    cases kind : ev.type <;> simp [kind, EventType.adds] at adds <;> simp [nonzero]
  have applied : b.apply ev =
      ((b.addOrder ev).1, !(b.addOrder ev).2.1, (b.addOrder ev).2.2) := by
    simp only [apply]
    cases kind : ev.type <;> simp [kind, EventType.adds] at adds <;> simp [nonzero]
  have drops : b.DropsOrder ev ↔ (b.addOrder ev).2.1 = false := by
    simp [DropsOrder, call]
  have flag : (b.onEvent ev).2.orderPoolExhausted = !(b.addOrder ev).2.1 := by
    simp only [onEvent, applied]
  have after : b.step ev = (b.addOrder ev).1 := by
    simp only [step, onEvent, applied]
  have grew : (b.step ev).droppedOrderInserts ≠ b.droppedOrderInserts ↔
      ev.side ≠ .unknown ∧ b.freeList = [] := by
    rw [after, addOrder_dropped]
    split
    · next none => simp [none]
    · next some => simpa using not_and.mp some
  constructor
  · intro reports known null
    have failed := addOrder_fails_iff.mpr ⟨known, Or.inr null⟩
    have empty := (grew.mp (reports.counted.mp (drops.mpr failed))).2
    rw [empty] at null
    cases null
  · intro available
    have failed : (b.addOrder ev).2.1 = false ↔ ev.side ≠ .unknown ∧ b.freeList = [] := by
      rw [addOrder_fails_iff]
      exact and_congr_right fun known => or_iff_left (available known)
    refine ⟨?_, ?_, ?_⟩
    · rw [drops, flag, Bool.not_eq_true']
    · rw [drops, grew, failed]
    · intro _ exhausted
      rw [flag, Bool.not_eq_true', failed] at exhausted
      rw [after, addOrder_exhausted exhausted.1 exhausted.2]
      exact ⟨rfl, rfl, rfl⟩

/-- A Replace never reports, so it must not drop. -/
theorem reportsDrops_replace (replaces : ev.type = .replace) :
    b.ReportsDrops ev ↔ (b.newSide ev ≠ .unknown →
      b.FreesNode ev ∨ ∃ idx, idx ≠ kNull ∧ b.freeList.head? = some idx) := by
  let reduced := b.reduceOrder (OrderBookEngine.orderKey ev.venue ev.referenceOrderId) 0 true
  have drops : b.DropsOrder ev ↔
      b.newSide ev ≠ .unknown ∧ (reduced.freeList = [] ∨ reduced.freeList.head? = some kNull) := by
    simp only [DropsOrder, addCall, replaces, Option.mem_def, Option.some.injEq, exists_eq_left',
      addOrder_fails_iff]
    rfl
  have silent : (b.onEvent ev).2.orderPoolExhausted = false := by
    simp only [onEvent, apply, replaces]
  have after : (b.step ev).droppedOrderInserts =
      b.droppedOrderInserts + if b.newSide ev ≠ .unknown ∧ reduced.freeList = [] then 1 else 0 := by
    simp only [step, onEvent, apply, replaces]
    rw [replaceOrder_newSide, addOrder_dropped, reduceOrder_dropped]
  -- a freed node is in front and is not null
  have missing : (reduced.freeList = [] ∨ reduced.freeList.head? = some kNull) ↔
      ¬ (b.FreesNode ev ∨ ∃ idx, idx ≠ kNull ∧ b.freeList.head? = some idx) := by
    rcases b.freeList_replaced ev with ⟨frees, idx, proper, free⟩ | ⟨keeps, free⟩
    · simp only [reduced, free, frees, true_or, not_true_eq_false, iff_false]
      simp [proper]
    · simp only [reduced, free, keeps, false_or]
      cases b.freeList with
      | nil => simp
      | cons idx rest => simp
  constructor
  · intro reports known
    by_contra none
    have flagged := reports.reported.mpr (drops.mpr ⟨known, missing.mpr none⟩)
    rw [silent] at flagged
    cases flagged
  · intro available
    have kept : ¬ b.DropsOrder ev := by
      rw [drops]
      exact fun lost => missing.mp lost.2 (available lost.1)
    have same : (b.step ev).droppedOrderInserts = b.droppedOrderInserts := by
      rw [after, if_neg fun lost => kept (drops.mpr ⟨lost.1, Or.inl lost.2⟩)]
      exact UInt64.add_zero _
    refine ⟨?_, ?_, ?_⟩
    · rw [silent]
      exact iff_of_false Bool.false_ne_true kept
    · exact iff_of_false kept fun grew => grew same
    · intro adds
      rw [replaces] at adds
      cases adds

/-- An event that asks for no order drops none and reports none. -/
theorem reportsDrops_idle (idle : b.addCall ev = none) : b.ReportsDrops ev := by
  have kept : ¬ b.DropsOrder ev := by simp [DropsOrder, idle]
  have quiet : (b.onEvent ev).2.orderPoolExhausted = false ∧
      (b.step ev).droppedOrderInserts = b.droppedOrderInserts := by
    simp only [addCall] at idle
    simp only [step, onEvent, apply]
    cases kind : ev.type <;> simp only [kind] at idle
    case add | addMpid =>
      have zero : ¬ ev.orderId ≠ 0 := fun nonzero => by simp [nonzero] at idle
      simp only [if_neg zero, and_self]
    case execute | executePrice | cancel | delete => exact ⟨rfl, reduceOrder_dropped _ _⟩
    case replace => cases idle
    all_goals exact ⟨rfl, rfl⟩
  refine ⟨?_, ?_, ?_⟩
  · rw [quiet.1]
    exact iff_of_false Bool.false_ne_true kept
  · exact iff_of_false kept fun grew => grew quiet.2
  · intro _ exhausted
    rw [quiet.1] at exhausted
    cases exhausted

theorem reportsDrops_iff (b : IntrusiveOrderBook capacity) (ev : BookEvent) :
    b.ReportsDrops ev ↔ b.NodeAvailable ev := by
  by_cases adds : ev.type.adds = true
  · have other : ev.type ≠ .replace := by
      intro replaces
      rw [replaces] at adds
      cases adds
    by_cases zero : ev.orderId = 0
    · have idle : b.addCall ev = none := by
        simp only [addCall]
        cases kind : ev.type <;> simp [kind, EventType.adds] at adds <;> simp [zero]
      refine iff_of_true (reportsDrops_idle idle) ⟨?_, fun replaces => absurd replaces other⟩
      exact fun _ nonzero => absurd zero nonzero
    · rw [reportsDrops_add adds zero, NodeAvailable]
      exact ⟨fun available => ⟨fun _ _ => available, fun replaces => absurd replaces other⟩,
        fun available => available.1 adds zero⟩
  · by_cases replaces : ev.type = .replace
    · rw [reportsDrops_replace replaces, NodeAvailable]
      exact ⟨fun available => ⟨fun added => absurd added adds, fun _ => available⟩,
        fun available => available.2 replaces⟩
    · have idle : b.addCall ev = none := by
        simp only [addCall]
        cases kind : ev.type <;> simp [kind, EventType.adds] at adds replaces ⊢
      exact iff_of_true (reportsDrops_idle idle)
        ⟨fun added => absurd added adds, fun also => absurd also replaces⟩

/-- Where every node has an index of its own, only a Replace of an order that the book does
not know can find no node: one that it knows frees a node first. -/
theorem WellFormed.available_iff (ok : b.WellFormed) (small : capacity < 2 ^ 32 - 1)
    (ev : BookEvent) : b.NodeAvailable ev ↔
      ¬ (ev.type = .replace ∧ ev.side ≠ .unknown ∧ b.referencedNode ev = none ∧
        b.freeList = []) := by
  have proper : ∀ idx : UInt32, idx.toNat < capacity → idx ≠ kNull := fun _ =>
    ne_null (show capacity ≤ kNull.toNat from small.le)
  have free : ∀ idx, b.freeList.head? = some idx → idx ≠ kNull := by
    intro idx head
    exact proper idx ((ok.partitioned.mem_freeList idx).mp (List.mem_of_mem_head? head)).1
  constructor
  · rintro ⟨_, available⟩ ⟨replaces, known, unknown, exhausted⟩
    have side : b.newSide ev = ev.side := by simp only [newSide, unknown]
    rcases available replaces (side ▸ known) with ⟨idx, found, _⟩ | ⟨idx, _, head⟩
    · rw [unknown] at found
      cases found
    · rw [exhausted] at head
      cases head
  · intro room
    refine ⟨fun _ _ _ null => free kNull null rfl, ?_⟩
    intro replaces known
    cases found : b.referencedNode ev with
    | some idx =>
      have live := (ok.index _ idx found).1
      have inPool := ok.partitioned.live_lt idx live
      exact Or.inl ⟨idx, found, proper idx inPool, inPool, live⟩
    | none =>
      have side : b.newSide ev = ev.side := by simp only [newSide, found]
      cases head : b.freeList.head? with
      | some idx => exact Or.inr ⟨idx, free idx head, rfl⟩
      | none =>
        rw [side] at known
        exact absurd ⟨replaces, known, found, List.head?_eq_none_iff.mp head⟩ room

/-- At every event of every stream no order is dropped silently exactly when an Add does not
take the null index and a Replace does not find the pool exhausted. In a pool without the
null index that leaves the Replaces of unknown orders that find it exhausted. -/
theorem drop_reported_iff (capacity : Nat) (events : List BookEvent) (ev : BookEvent) :
    let b := events.foldl step (create capacity)
    (b.ReportsDrops ev ↔ b.NodeAvailable ev) ∧
      (capacity < 2 ^ 32 - 1 → (b.ReportsDrops ev ↔
        ¬ (ev.type = .replace ∧ ev.side ≠ .unknown ∧ b.referencedNode ev = none ∧
          b.freeList = []))) := by
  intro b
  refine ⟨b.reportsDrops_iff ev, fun small => ?_⟩
  exact (b.reportsDrops_iff ev).trans
    ((run_wellFormed capacity small events).available_iff small ev)

/-- An order for a pool of one. -/
def onlyOrder : BookEvent := { type := .add, orderId := 1, side := .buy, price := 100, qty := 10 }

/-- A Replace of an order that the book never had. -/
def strayReplace : BookEvent :=
  { type := .replace, orderId := 3, referenceOrderId := 2, side := .sell, price := 101, qty := 5 }

/-- The Replace finds the pool exhausted: its order is dropped and counted, and the answer
does not say so. -/
theorem replace_drops_silently :
    let b := [onlyOrder].foldl step (create 1)
    (b.onEvent strayReplace).2.orderPoolExhausted = false ∧
      (b.step strayReplace).droppedOrderInserts = b.droppedOrderInserts + 1 ∧
      ¬ b.ReportsDrops strayReplace := by
  refine ⟨by decide, by decide, fun reports => ?_⟩
  have flagged := reports.reported.mpr (reports.counted.mpr (by decide))
  exact absurd flagged (by decide)

end IntrusiveOrderBook
end FeedHandler
