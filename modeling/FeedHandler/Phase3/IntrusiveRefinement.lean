import FeedHandler.Phase3.BookConservation
import FeedHandler.Phase3.IntrusiveBest

/-! The intrusive book refines the reference book. Both are compared with the abstract
machine of orders and books: the index leads to the orders, and every level has the
quantity that the level vector shows. -/
namespace FeedHandler

open IntrusiveOrderBook (Place)

namespace BookSpec

/-- The quantity that the books show at a place. -/
def quantity (s : BookSpec) (p : Place) : Option UInt64 :=
  FlatMap.find? (priceBefore p.side.descending) ((s.books p.venue p.symbol).levels p.side) p.price

def Sorted (s : BookSpec) : Prop :=
  ∀ venue symbol side, side ≠ .unknown →
    FlatMap.Sorted (priceBefore side.descending) ((s.books venue symbol).levels side)

def setBook (s : BookSpec) (venue : Venue) (symbol : UInt64) (book : VenueBook) :
    Venue → UInt64 → VenueBook :=
  Function.update s.books venue (Function.update (s.books venue) symbol book)

/-- The machine between the two halves of a Replace. -/
def halfway (s : BookSpec) (ev : BookEvent) : BookSpec where
  orders := Function.update s.orders (OrderBookEngine.orderKey ev.venue ev.referenceOrderId) none
  books := s.setBook ev.venue ev.symbol.asU64 (withoutReferenced s.orders ev (s.ownBook ev))

variable {s s' : BookSpec} {place : Place} {book : VenueBook}
  {change : Option UInt64 → Option UInt64}

/-- One price level of one side of a book is altered. -/
theorem Sorted.alter (sorted : s.Sorted) (known : place.side ≠ .unknown)
    (books : s'.books = s.setBook place.venue place.symbol book)
    (levels : ∀ side, side ≠ .unknown → book.levels side =
      if side = place.side then FlatMap.alter (priceBefore place.side.descending)
        ((s.books place.venue place.symbol).levels place.side) place.price change
      else (s.books place.venue place.symbol).levels side) :
    s'.Sorted ∧ ∀ p, p.side ≠ .unknown →
      s'.quantity p = if p = place then change (s.quantity place) else s.quantity p := by
  have strict := fun descending => priceBefore_strict descending
  have own := sorted place.venue place.symbol place.side known
  have shown : ∀ venue symbol, s'.books venue symbol =
      if venue = place.venue ∧ symbol = place.symbol then book else s.books venue symbol := by
    intro venue symbol
    rw [books, setBook, update_book]
  constructor
  · intro venue symbol side sideKnown
    rw [shown]
    split
    · rw [levels side sideKnown]
      split
      · next same =>
        rw [same]
        exact own.alter (strict _) _ _
      · exact sorted place.venue place.symbol side sideKnown
    · exact sorted venue symbol side sideKnown
  · rintro ⟨venue, symbol, side, price⟩ sideKnown
    simp only [quantity, shown]
    by_cases here : venue = place.venue ∧ symbol = place.symbol
    · obtain ⟨rfl, rfl⟩ := here
      rw [if_pos ⟨rfl, rfl⟩, levels side sideKnown]
      by_cases sameSide : side = place.side
      · subst sameSide
        rw [if_pos rfl, own.find?_alter (strict _)]
        by_cases samePrice : price = place.price
        · rw [if_pos samePrice, if_pos (by rw [samePrice])]
        · rw [if_neg samePrice, if_neg (fun same => samePrice (congrArg Place.price same))]
      · rw [if_neg sameSide, if_neg (fun same => sameSide (congrArg Place.side same))]
    · rw [if_neg here, if_neg]
      rintro rfl
      exact here ⟨rfl, rfl⟩

/-- What a reduction leaves of the quantity at a level. -/
def reducedBy (dec : UInt32) : Option UInt64 → Option UInt64
  | some resting => if resting > dec.toUInt64 then some (resting - dec.toUInt64) else none
  | none => none

theorem Sorted.add (sorted : s.Sorted) (place : Place) (known : place.side ≠ .unknown) {qty : UInt32}
    (books : s'.books = s.setBook place.venue place.symbol
      ((s.books place.venue place.symbol).add place.side place.price qty)) :
    s'.Sorted ∧ ∀ p, p.side ≠ .unknown → s'.quantity p =
      if p = place then some ((s.quantity place).getD 0 + qty.toUInt64) else s.quantity p := by
  obtain ⟨kept, changed⟩ := sorted.alter known books
    fun side _ => VenueBook.levels_add place.side side known
  refine ⟨kept, fun p pKnown => ?_⟩
  rw [changed p pKnown]
  split
  · cases s.quantity place <;> simp
  · rfl

theorem Sorted.reduce (sorted : s.Sorted) (place : Place) (known : place.side ≠ .unknown) {dec : UInt32}
    (books : s'.books = s.setBook place.venue place.symbol
      ((s.books place.venue place.symbol).reduce place.side place.price dec)) :
    s'.Sorted ∧ ∀ p, p.side ≠ .unknown → s'.quantity p =
      if p = place then reducedBy dec (s.quantity place) else s.quantity p :=
  sorted.alter known books fun side _ => VenueBook.levels_reduce place.side side

end BookSpec

namespace IntrusiveOrderBook

variable {capacity : Nat} {b b' : IntrusiveOrderBook capacity} {s s' : BookSpec} {size : Nat}
  {reserve free : List UInt32} {queue : Place → List UInt32} {ev : BookEvent} {i : UInt32}

/-- The order that a node stands for. -/
def OrderNode.order (node : OrderNode) : OrderRef where
  venue := node.venue
  symbolU64 := node.symbolU64
  side := node.side
  price := node.price
  qty := node.qty

/-- What the two books know of an order; what was queued ahead of it only one of them keeps. -/
def shared (order : OrderRef) : OrderRef := { order with queueAhead := 0 }

/-- The index leads to the orders, without duplicates, and the levels show their quantities. -/
structure Simulates (b : IntrusiveOrderBook capacity) (s : BookSpec) : Prop where
  orders : ∀ key, (b.orderIndex key).map (fun i => (b.nodes i).order) = (s.orders key).map shared
  indexed : ∀ i, (b.nodes i).live = true → b.orderIndex (b.nodes i).key = some i
  sorted : s.Sorted
  quantity : ∀ p, p.side ≠ .unknown → s.quantity p = (b.levelAt p).map Level.qty

theorem create_simulates : (create capacity).Simulates {} where
  orders := fun _ => rfl
  indexed := fun _ live => absurd live Bool.false_ne_true
  sorted := by
    intro venue symbol side known
    cases side <;> exact List.Pairwise.nil
  quantity := by
    rintro ⟨venue, symbol, side, price⟩ known
    cases side with
    | buy | sell => rfl
    | unknown => exact absurd rfl known

/-- Both books show the same levels. -/
theorem Simulates.snapshot_eq (sim : b.Simulates s) (venue : Venue) (symbol : UInt64) :
    b.snapshot venue symbol = s.books venue symbol := by
  have side : ∀ side, side ≠ .unknown → ((b.books venue symbol).sideBook side).sortedLevels
      side.descending = (s.books venue symbol).levels side := by
    intro side known
    have strict := priceBefore_strict side.descending
    have sorted := sim.sorted venue symbol side known
    refine (SideBook.sortedLevels_sorted _ _).ext strict sorted fun ⟨price, qty⟩ => ?_
    have shown := sim.quantity ⟨venue, symbol, side, price⟩ known
    rw [SideBook.mem_sortedLevels, ← sorted.find?_iff strict]
    simp only [BookSpec.quantity] at shown
    rw [shown, Option.map_eq_some_iff]
    rfl
  have bids := side .buy Side.buy_ne_unknown
  have asks := side .sell Side.sell_ne_unknown
  exact congrArg₂ FeedHandler.VenueBook.mk bids asks

theorem Simulates.levelOr_qty (sim : b.Simulates s) {p : Place} (known : p.side ≠ .unknown) :
    (b.levelOr p).qty = (s.quantity p).getD 0 := by
  rw [sim.quantity p known, levelOr]
  cases b.levelAt p <;> rfl

/-- The orders of the other keys stay, since no node of theirs changes. -/
theorem Simulates.orders_other (sim : b.Simulates s) {key : UInt64} {entry : Option UInt32}
    {order : Option OrderRef} (index : b'.orderIndex = Function.update b.orderIndex key entry)
    (orders : s'.orders = Function.update s.orders key order)
    (here : entry.map (fun i => (b'.nodes i).order) = order.map shared)
    (kept : ∀ other j, other ≠ key → b.orderIndex other = some j →
      (b'.nodes j).order = (b.nodes j).order) (other : UInt64) :
    (b'.orderIndex other).map (fun i => (b'.nodes i).order) = (s'.orders other).map shared := by
  rw [index, orders, Function.update_apply, Function.update_apply]
  split
  · exact here
  · next distinct =>
    rw [← sim.orders other]
    cases found : b.orderIndex other with
    | none => rfl
    | some j => exact congrArg some (kept other j distinct found)

/-- Both enter the same order. -/
theorem Simulates.enter (sim : b.Simulates s) (rep : Represents b size reserve (i :: free) queue)
    (proper : size ≤ kNull.toNat) (known : ev.side ≠ .unknown) (added : Added b ev i b')
    (fresh : b.orderIndex (OrderBookEngine.orderKey ev.venue ev.orderId) = none) {ahead : UInt64}
    (orders : s'.orders = Function.update s.orders (OrderBookEngine.orderKey ev.venue ev.orderId)
      (some (BookSpec.broughtOrder ev ahead)))
    (books : s'.books = s.setBook ev.venue ev.symbol.asU64
      ((s.books ev.venue ev.symbol.asU64).add ev.side ev.price ev.qty)) : b'.Simulates s' := by
  have node := added.node_eq (rep.tail_ne_free proper known)
  have dead : ∀ j, (b.nodes j).live = true → j ≠ i := by
    rintro j live rfl
    rw [((rep.pool.mem_free j).mp (by simp)).2] at live
    cases live
  obtain ⟨sorted, shown⟩ := sim.sorted.add (eventPlace ev) known books
  refine ⟨?_, ?_, sorted, ?_⟩
  · refine sim.orders_other added.index orders ?_ ?_
    · rw [Option.map_some, node, if_pos rfl]
      rfl
    · intro other j _ found
      rw [node, if_neg (dead j (rep.index other j found).1)]
      rfl
  · intro j live
    rw [added.index]
    rcases eq_or_ne j i with rfl | other
    · rw [node, if_pos rfl]
      exact Function.update_self ..
    · rw [node, if_neg other] at live ⊢
      have indexed := sim.indexed j live
      rw [Function.update_of_ne, indexed]
      rintro same
      rw [same, fresh] at indexed
      cases indexed
  · intro p pKnown
    rw [shown p pKnown, added.levelAt known p pKnown]
    split
    · rw [appendNode_level, Option.map_some, ← sim.levelOr_qty (p := eventPlace ev) known]
      rfl
    · exact sim.quantity p pKnown

/-- The place of a live order shows its level. -/
theorem Simulates.quantity_live (sim : b.Simulates s)
    (rep : Represents b size reserve free queue) (live : (b.nodes i).live = true) :
    s.quantity (b.nodes i).place = some (b.levelOr (b.nodes i).place).qty := by
  obtain ⟨level, found⟩ := SideBook.mem_keys.mp (rep.place_mem live)
  have own : b.levelAt (b.nodes i).place = some level := found
  rw [sim.quantity _ (rep.levels.known i live), levelOr, own]
  rfl

/-- A level is shown as long as the subtraction leaves something. -/
theorem reducedBy_less {level : Level} {dec : UInt32} : BookSpec.reducedBy dec (some level.qty) =
    if (level.less dec).qty = 0 then none else some (level.less dec).qty := by
  simp only [BookSpec.reducedBy, Level.less]
  split
  · next more =>
    have left : level.qty - dec.toUInt64 ≠ 0 := by
      intro zero
      have below := UInt64.toNat_sub_of_le _ _ (UInt64.le_of_lt more)
      have less := UInt64.lt_iff_toNat_lt.mp more
      rw [zero, UInt64.toNat_zero] at below
      omega
    rw [if_neg left]
  · rw [if_pos rfl]

section Reduce

variable (sim : b.Simulates s) (rep : Represents b size reserve free queue) {key : UInt64}
  {dec : UInt32} (named : b.orderIndex key = some i) (enough : dec ≤ (b.nodes i).qty)
  (books : s'.books = s.setBook (b.nodes i).venue (b.nodes i).symbolU64
    ((s.books (b.nodes i).venue (b.nodes i).symbolU64).reduce (b.nodes i).side (b.nodes i).price
      dec))

include sim rep named enough books

/-- Both take the same quantity off an order that stays. -/
theorem Simulates.shrink (stays : (b.nodes i).qty - dec ≠ 0) (shrunk : Shrunk b i dec b')
    {left : OrderRef} (same : shared left = ((b.nodes i).less dec).order)
    (orders : s'.orders = Function.update s.orders key (some left)) : b'.Simulates s' := by
  obtain ⟨live, _⟩ := rep.index key i named
  have known := rep.levels.known i live
  obtain ⟨sorted, shown⟩ := sim.sorted.reduce (b.nodes i).place known books
  have index : b'.orderIndex = Function.update b.orderIndex key (some i) := by
    rw [shrunk.index, ← named, Function.update_eq_self]
  refine ⟨?_, ?_, sorted, ?_⟩
  · refine sim.orders_other index orders ?_ ?_
    · rw [Option.map_some, Option.map_some, same, shrunk.nodes, Function.update_self]
    · intro other j distinct found
      rw [shrunk.nodes, Function.update_of_ne (rep.index_ne named distinct found)]
  · intro j alive
    rw [shrunk.index]
    rcases eq_or_ne j i with rfl | other
    · rw [shrunk.nodes, Function.update_self]
      exact sim.indexed j live
    · rw [shrunk.nodes, Function.update_of_ne other] at alive ⊢
      exact sim.indexed j alive
  · intro p pKnown
    rw [shown p pKnown, shrunk.levelAt known p pKnown]
    split
    · have part := UInt32.toNat_sub_of_le _ _ enough
      have left : ((b.nodes i).qty - dec).toNat ≠ 0 :=
        fun zero => stays (UInt32.toNat_inj.mp zero)
      have whole := rep.qty_le_level live
      have more : (b.levelOr (b.nodes i).place).qty > dec.toUInt64 := by
        rw [gt_iff_lt, UInt64.lt_iff_toNat_lt, UInt32.toNat_toUInt64]
        omega
      rw [sim.quantity_live rep live, Option.map_some]
      simp only [BookSpec.reducedBy, Level.less, if_pos more]
    · exact sim.quantity p pKnown

/-- Both let go of an order that is used up, and of its level if nothing else is there. -/
theorem Simulates.leave (cached : b.Cached) (proper : size ≤ kNull.toNat)
    (used : (b.nodes i).qty - dec = 0) (removed : Removed b key i dec b')
    (orders : s'.orders = Function.update s.orders key none) : b'.Simulates s' := by
  obtain ⟨live, _⟩ := rep.index key i named
  have known := rep.levels.known i live
  obtain ⟨sorted, shown⟩ := sim.sorted.reduce (b.nodes i).place known books
  refine ⟨?_, ?_, sorted, ?_⟩
  · refine sim.orders_other removed.index orders rfl ?_
    intro other j distinct found
    have apart := rep.index_ne named distinct found
    rw [removed.node_eq, if_neg apart, unlinked_node j apart]
    rfl
  · intro j alive
    rcases eq_or_ne j i with rfl | other
    · rw [removed.node_eq, if_pos rfl] at alive
      cases alive
    · obtain ⟨liveSame, _, keySame⟩ := removed.kept other
      rw [liveSame] at alive
      have indexed := sim.indexed j alive
      rw [removed.index, keySame, Function.update_of_ne, indexed]
      rintro same
      rw [same, named] at indexed
      exact other (Option.some.inj indexed).symm
  · intro p pKnown
    rw [shown p pKnown, removed.levelAt known p pKnown]
    split
    · have shape : (b.unlinked i dec).2.qty = ((b.levelOr (b.nodes i).place).less dec).qty := by
        rw [unlinked, unlinkNode_level]
      have head := cached.unlinked_head rep proper live enough used
      rw [sim.quantity_live rep live, reducedBy_less, ← shape]
      split
      · next zero => rw [if_pos ⟨zero, head zero⟩, Option.map_none]
      · next some => rw [if_neg (fun both => some both.1), Option.map_some]
    · exact sim.quantity p pKnown

end Reduce

/-- A live order of the index is an order of the abstract machine. -/
theorem Simulates.order_eq (sim : b.Simulates s) {key : UInt64} (named : b.orderIndex key = some i) :
    ∃ order, s.orders key = some order ∧ shared order = (b.nodes i).order := by
  have both := sim.orders key
  rw [named, Option.map_some, eq_comm, Option.map_eq_some_iff] at both
  exact both

theorem Simulates.absent_iff (sim : b.Simulates s) {key : UInt64} :
    b.orderIndex key = none ↔ s.orders key = none := by
  have both := sim.orders key
  constructor
  · intro absent
    rw [absent, Option.map_none, eq_comm, Option.map_eq_none_iff] at both
    exact both
  · intro absent
    rw [absent, Option.map_none, Option.map_eq_none_iff] at both
    exact both

/-- The order leaves by a reduction that takes all of it. -/
theorem Simulates.deleteAll (sim : b.Simulates s) (rep : Represents b size reserve free queue)
    (cached : b.Cached) (proper : size ≤ kNull.toNat) (within : size ≤ capacity) {key : UInt64}
    (named : b.orderIndex key = some i) {order : OrderRef} (same : shared order = (b.nodes i).order)
    (orders : s'.orders = Function.update s.orders key none)
    (books : s'.books = s.setBook order.venue order.symbolU64
      ((s.books order.venue order.symbolU64).reduce order.side order.price order.qty)) :
    (b.reduceOrder key 0 true).Simulates s' := by
  obtain ⟨_, _, all⟩ | ⟨removed, used⟩ := rep.reduceOrder_cases proper within named 0 true
  · cases all
  · have whole : amount (b.nodes i) 0 true = (b.nodes i).qty := if_pos (Or.inl rfl)
    rw [whole] at removed used
    obtain ⟨venue, symbol, side, price, qty, _⟩ := order
    cases same
    exact sim.leave rep named (UInt32.le_refl _) books cached proper used removed orders

/-- The conditions on an event that the abstract machine can see. -/
structure Fair (s : BookSpec) (ev : BookEvent) : Prop where
  adds : ev.type.adds = true → ev.orderId ≠ 0 ∧ ev.side ≠ .unknown ∧ 0 < ev.qty ∧
    s.orders (OrderBookEngine.orderKey ev.venue ev.orderId) = none
  reduces : ev.type.reduces = true →
    ∀ order ∈ s.orders (OrderBookEngine.orderKey ev.venue ev.orderId),
      order.venue = ev.venue ∧ order.symbolU64 = ev.symbol.asU64
  replaces : ev.type = .replace → ev.orderId ≠ 0 ∧ ev.side ≠ .unknown ∧ 0 < ev.qty ∧
    (∀ order ∈ s.orders (OrderBookEngine.orderKey ev.venue ev.referenceOrderId),
      order.venue = ev.venue ∧ order.symbolU64 = ev.symbol.asU64) ∧
    (ev.orderId = ev.referenceOrderId ∨
      s.orders (OrderBookEngine.orderKey ev.venue ev.orderId) = none)
  whole : ev.type = .delete → ev.qty = 0

section Step

variable (sim : b.Simulates s) (rep : Represents b size reserve free queue) (cached : b.Cached)
  (proper : size ≤ kNull.toNat) (within : size ≤ capacity)

theorem step_reduces (kind : ev.type.reduces = true) :
    (s.step ev).orders = Function.update s.orders (OrderBookEngine.orderKey ev.venue ev.orderId)
      ((BookSpec.named s.orders ev).bind (BookSpec.remaining ev)) ∧
    (s.step ev).books = s.setBook ev.venue ev.symbol.asU64
      (match BookSpec.named s.orders ev with
        | none => s.books ev.venue ev.symbol.asU64
        | some order => (s.books ev.venue ev.symbol.asU64).reduce order.side order.price
            (BookSpec.taken ev order)) := by
  simp only [BookSpec.step, BookSpec.ordersAfter, BookSpec.bookAfter, BookSpec.setBook,
    BookSpec.ownBook]
  cases type : ev.type <;> simp only [type, EventType.reduces, Bool.false_eq_true] at kind ⊢
  all_goals constructor <;> trivial

theorem amount_eq (fair : Fair s ev) {node : OrderNode} {order : OrderRef}
    (same : shared order = node.order) :
    amount node ev.qty (ev.type = .delete) = BookSpec.taken ev order := by
  have qty : order.qty = node.qty := congrArg OrderRef.qty same
  simp only [amount, BookSpec.taken, qty, decide_eq_true_eq]
  by_cases deletes : ev.type = .delete
  · rw [if_pos (Or.inl deletes), if_pos (Or.inl (fair.whole deletes))]
  · simp only [deletes, false_or]

include sim rep cached proper within

theorem Simulates.reduceOrder (fair : Fair s ev) (kind : ev.type.reduces = true) :
    (b.reduceOrder (OrderBookEngine.orderKey ev.venue ev.orderId) ev.qty
      (ev.type = .delete)).Simulates (s.step ev) := by
  obtain ⟨orders, books⟩ := step_reduces (s := s) kind
  simp only [BookSpec.named] at orders books
  cases named : b.orderIndex (OrderBookEngine.orderKey ev.venue ev.orderId) with
  | none =>
    have absent := sim.absent_iff.mp named
    have idle : s.step ev = s := by
      rw [absent] at orders books
      simp only [Option.bind_none, BookSpec.setBook, Function.update_eq_self] at orders books
      rw [← absent, Function.update_eq_self] at orders
      exact congrArg₂ BookSpec.mk orders books
    rw [idle]
    simp only [IntrusiveOrderBook.reduceOrder, named]
    exact sim
  | some i =>
    obtain ⟨order, found, same⟩ := sim.order_eq named
    obtain ⟨venue, symbol⟩ := fair.reduces kind order found
    have dec := amount_eq fair same
    have enough := amount_le (b.nodes i) ev.qty (ev.type = .delete)
    rw [found] at orders books
    simp only [Option.bind_some, BookSpec.remaining, ← dec] at orders books
    rw [← venue, ← symbol] at books
    obtain ⟨_, _, _, _, _, _⟩ := order
    cases same
    rcases rep.reduceOrder_cases proper within named ev.qty (ev.type = .delete) with
      ⟨shrunk, stays, kept⟩ | ⟨removed, used⟩
    · have part : ¬ (amount (b.nodes i) ev.qty (ev.type = .delete) ≥ (b.nodes i).qty ∨
          ev.type = .delete) := by
        rintro (most | deletes)
        · exact stays ((sub_eq_zero_iff enough).mpr most)
        · exact of_decide_eq_false kept deletes
      rw [if_neg part] at orders
      refine sim.shrink rep named enough books stays shrunk ?_ orders
      rfl
    · rw [if_pos (Or.inl ((sub_eq_zero_iff enough).mp used))] at orders
      exact sim.leave rep named enough books cached proper used removed orders

omit cached within in
theorem Simulates.addOrder (some : free ≠ []) (known : ev.side ≠ .unknown)
    (fresh : s.orders (OrderBookEngine.orderKey ev.venue ev.orderId) = none) (ahead : UInt64)
    (orders : s'.orders = Function.update s.orders (OrderBookEngine.orderKey ev.venue ev.orderId)
      (.some (BookSpec.broughtOrder ev ahead)))
    (books : s'.books = s.setBook ev.venue ev.symbol.asU64
      ((s.books ev.venue ev.symbol.asU64).add ev.side ev.price ev.qty)) :
    (b.addOrder ev).1.Simulates s' := by
  rcases rep.addOrder_cases proper (Or.inr some) ev with ⟨unsided, _⟩ | ⟨_, none, _⟩ |
    ⟨_, i, rest, rfl, added, _⟩
  · exact absurd unsided known
  · exact absurd none some
  · exact sim.enter rep proper known added (sim.absent_iff.mpr fresh) orders books

omit proper within cached rep sim in
theorem replaceOrder_eq (known : ev.side ≠ .unknown) : b.replaceOrder ev =
    ((b.reduceOrder (OrderBookEngine.orderKey ev.venue ev.referenceOrderId) 0 true).addOrder
      ev).1 := by
  simp only [IntrusiveOrderBook.replaceOrder]
  cases named : b.orderIndex (OrderBookEngine.orderKey ev.venue ev.referenceOrderId) with
  | none => simp only [IntrusiveOrderBook.reduceOrder, named]
  | some i => simp only [if_neg known]

/-- The first half of a Replace. -/
theorem Simulates.halfway (carries : ∀ order ∈ s.orders (OrderBookEngine.orderKey ev.venue
    ev.referenceOrderId), order.venue = ev.venue ∧ order.symbolU64 = ev.symbol.asU64) :
    (b.reduceOrder (OrderBookEngine.orderKey ev.venue ev.referenceOrderId) 0 true).Simulates
      (s.halfway ev) := by
  cases named : b.orderIndex (OrderBookEngine.orderKey ev.venue ev.referenceOrderId) with
  | none =>
    have absent := sim.absent_iff.mp named
    have idle : s.halfway ev = s := by
      simp only [BookSpec.halfway, BookSpec.withoutReferenced, BookSpec.referenced, absent,
        BookSpec.setBook, BookSpec.ownBook, Function.update_eq_self]
      rw [← absent, Function.update_eq_self]
    rw [idle]
    simp only [IntrusiveOrderBook.reduceOrder, named]
    exact sim
  | some i =>
    obtain ⟨order, found, same⟩ := sim.order_eq named
    obtain ⟨venue, symbol⟩ := carries order found
    refine sim.deleteAll rep cached proper within named same rfl ?_
    rw [venue, symbol]
    simp only [BookSpec.halfway, BookSpec.withoutReferenced, BookSpec.referenced, found]
    rfl

theorem Simulates.replaceOrder (some : free ≠ []) (fair : Fair s ev) (kind : ev.type = .replace) :
    (b.replaceOrder ev).Simulates (s.step ev) := by
  obtain ⟨nonzero, known, _, carries, fresh⟩ := fair.replaces kind
  obtain ⟨freed, queue, reduced, grown⟩ := rep.reduceOrder proper within
    (OrderBookEngine.orderKey ev.venue ev.referenceOrderId) 0 true
  rw [replaceOrder_eq known]
  refine (sim.halfway rep cached proper within carries).addOrder reduced proper
    (fun none => some (List.suffix_nil.mp (none ▸ grown))) known ?_ 0 ?_ ?_
  · simp only [BookSpec.halfway, Function.update_apply]
    split
    · rfl
    · next distinct =>
      exact fresh.resolve_left fun reused => distinct (by rw [reused])
  · simp only [BookSpec.step, BookSpec.ordersAfter, kind, BookSpec.enter, if_neg nonzero]
    rfl
  · simp only [BookSpec.step, BookSpec.bookAfter, kind, BookSpec.halfway, BookSpec.setBook,
      Function.update_self, Function.update_idem]

/-- Step lemma: the intrusive book follows the abstract machine. -/
theorem Simulates.step (some : free ≠ []) (fair : Fair s ev) : (b.step ev).Simulates (s.step ev) := by
  simp only [IntrusiveOrderBook.step, onEvent, apply]
  cases kind : ev.type
  case add | addMpid =>
    obtain ⟨nonzero, known, _, fresh⟩ := fair.adds (by rw [kind]; rfl)
    simp only [if_pos nonzero]
    refine sim.addOrder rep proper some known fresh (BookSpec.queueAhead (s.ownBook ev) ev) ?_ ?_
    · simp only [BookSpec.step, BookSpec.ordersAfter, kind, BookSpec.enter, if_neg nonzero]
    · simp only [BookSpec.step, BookSpec.bookAfter, kind]
      rfl
  case execute | executePrice | cancel | delete =>
    have reduced := sim.reduceOrder rep cached proper within fair (by rw [kind]; rfl)
    rwa [kind] at reduced
  case replace => exact sim.replaceOrder rep cached proper within some fair kind
  all_goals
    have idle : s.step ev = s := by
      simp only [BookSpec.step, BookSpec.ordersAfter, BookSpec.bookAfter, kind, BookSpec.ownBook,
        Function.update_eq_self]
    rw [idle]
    exact sim

omit within cached in
/-- Both report the same quantity ahead of a new order. -/
theorem Simulates.queueAhead_eq (some : free ≠ []) (fair : Fair s ev) :
    (b.onEvent ev).2.queueAheadBeforeAdd = (s.result ev).queueAheadBeforeAdd := by
  simp only [onEvent, apply, BookSpec.result]
  cases kind : ev.type
  case add | addMpid =>
    obtain ⟨nonzero, known, _, _⟩ := fair.adds (by rw [kind]; rfl)
    simp only [if_pos nonzero]
    rcases rep.addOrder_cases proper (Or.inr some) ev with ⟨unsided, _⟩ | ⟨_, none, _⟩ |
      ⟨_, _, _, _, _, _, ahead⟩
    · exact absurd unsided known
    · exact absurd none some
    · rw [ahead, sim.levelOr_qty known]
      simp only [BookSpec.quantity, eventPlace, BookSpec.queueAhead, BookSpec.ownBook]
      cases side : ev.side with
      | buy | sell => rfl
      | unknown => exact absurd side known
  all_goals rfl

end Step

/-- What is asked of an event on both books: the conditions of the reference book's conservation
law, whole Deletes, and room in the pool. -/
structure Comparable {layout : ProbeLayout UInt64} (b : IntrusiveOrderBook capacity)
    (e : OrderBookEngine layout) (ev : BookEvent) : Prop where
  lawful : e.Lawful ev
  whole : ev.type = .delete → ev.qty = 0
  room : b.liveOrderCount < capacity

theorem Comparable.fair {layout : ProbeLayout UInt64} {e : OrderBookEngine layout}
    (comparable : Comparable b e ev) : Fair e.spec ev where
  adds := fun kind =>
    let ⟨enters, fresh⟩ := comparable.lawful.adds kind
    ⟨enters.valid.1, enters.known, enters.positive, fresh⟩
  reduces := fun kind => (comparable.lawful.reduces kind).2
  replaces := fun kind =>
    let ⟨enters, _, carries, fresh⟩ := comparable.lawful.replaces kind
    ⟨enters.valid.1, enters.known, enters.positive, carries, fresh⟩
  whole := comparable.whole

section Joint

variable {layout : ProbeLayout UInt64} {e : OrderBookEngine layout}

/-- Every live order has a slot of its own in the table. -/
theorem Simulates.live_le (sim : b.Simulates e.spec) (rep : Represents b size reserve free queue)
    (proper : size ≤ kNull.toNat) (sound : e.orders.Sound) :
    b.liveOrderCount ≤ layout.size + 1 := by
  rw [rep.pool.live_count proper, List.countP_eq_length_filter]
  have slots : (((List.range size).filter fun n => (b.nodes (.ofNat n)).live).map
      fun n => e.orders.locate (b.nodes (.ofNat n)).key).Nodup := by
    refine List.Nodup.map_on ?_ (List.nodup_range.filter _)
    intro m first n second same
    obtain ⟨mBound, mLive⟩ := List.mem_filter.mp first
    obtain ⟨nBound, nLive⟩ := List.mem_filter.mp second
    have mNamed := sim.indexed _ mLive
    have nNamed := sim.indexed _ nLive
    obtain ⟨order, found, _⟩ := sim.order_eq mNamed
    obtain ⟨slot, held⟩ := sound.find?_iff.mp found
    have located := sound.locate_iff.mpr ⟨order, held⟩
    obtain ⟨other, heldToo⟩ := sound.locate_iff.mp (same ▸ located)
    rw [held] at heldToo
    injection heldToo with keys
    rw [keys, nNamed] at mNamed
    rw [← toNat_ofNat proper (List.mem_range.mp mBound),
      ← toNat_ofNat proper (List.mem_range.mp nBound), Option.some.inj mNamed]
  have bound := slots.length_le_card
  simpa using bound

/-- Both books in step with the abstract machine. -/
structure Joint (b : IntrusiveOrderBook capacity) (e : OrderBookEngine layout) (size : Nat)
    (reserve free : List UInt32) (queue : Place → List UInt32) : Prop where
  represents : Represents b size reserve free queue
  cached : b.Cached
  simulates : b.Simulates e.spec
  sound : e.orders.Sound

/-- What both books answer to an event and show after it. -/
structure Agrees (b : IntrusiveOrderBook capacity) (e : OrderBookEngine layout) (ev : BookEvent) :
    Prop where
  topAfter : (b.onEvent ev).2.topAfter = (e.onEvent ev).2.topAfter
  changedTop : (b.onEvent ev).2.changedTop = (e.onEvent ev).2.changedTop
  queueAhead : (b.onEvent ev).2.queueAheadBeforeAdd = (e.onEvent ev).2.queueAheadBeforeAdd
  snapshot : ∀ venue symbol, (b.step ev).snapshot venue symbol = (e.step ev).snapshot venue symbol
  topOfBook : ∀ venue symbol, (b.step ev).topOfBook venue symbol = (e.step ev).topOfBook venue symbol

theorem Joint.top_eq (joint : Joint b e size reserve free queue) (venue : Venue)
    (symbol : UInt64) : (b.books venue symbol).top = (e.books venue symbol).top :=
  (joint.cached.topOfBook_eq venue symbol).trans
    (congrArg FeedHandler.VenueBook.top (joint.simulates.snapshot_eq venue symbol))

/-- Step lemma: a comparable event leaves both books in step and gets the same answer. -/
theorem Joint.step (joint : Joint b e size reserve free queue) (proper : size ≤ kNull.toNat)
    (within : size ≤ capacity) (wide : size = capacity ∨ layout.size + 1 < size)
    (comparable : Comparable b e ev) :
    (∃ freed queue, Joint (b.step ev) (e.step ev) size reserve freed queue) ∧ Agrees b e ev := by
  have rep := joint.represents
  have fair := comparable.fair
  have live := joint.simulates.live_le rep proper joint.sound
  have room : free ≠ [] := by
    have count := rep.pool.count
    have below := comparable.room
    rintro rfl
    rw [List.length_nil] at count
    omega
  obtain ⟨freed, queue', kept, _⟩ := rep.step proper within (Or.inr room)
  obtain ⟨sound, refined, result⟩ :=
    OrderBookEngine.step_spec joint.sound comparable.lawful.unsaturated
  have cached : (b.step ev).Cached := joint.cached.step rep proper within (Or.inr room) (by
    rintro (adds | replaces)
    · exact UInt32.pos_iff_ne_zero.mp (fair.adds adds).2.2.1
    · exact UInt32.pos_iff_ne_zero.mp (fair.replaces replaces).2.2.1)
  have simulates : (b.step ev).Simulates (e.step ev).spec := by
    rw [refined]
    exact joint.simulates.step rep joint.cached proper within room fair
  have after : Joint (b.step ev) (e.step ev) size reserve freed queue' :=
    ⟨kept, cached, simulates, sound⟩
  refine ⟨⟨freed, queue', after⟩, ?_, ?_, ?_, simulates.snapshot_eq, after.top_eq⟩
  · exact after.top_eq ev.venue ev.symbol.asU64
  · exact congrArg₂ (· != ·) (joint.top_eq ev.venue ev.symbol.asU64)
      (after.top_eq ev.venue ev.symbol.asU64)
  · rw [result]
    exact joint.simulates.queueAhead_eq rep proper room fair

/-- Both books take the event. -/
def both (books : IntrusiveOrderBook capacity × OrderBookEngine layout) (ev : BookEvent) :
    IntrusiveOrderBook capacity × OrderBookEngine layout :=
  (books.1.step ev, books.2.step ev)

theorem Joint.run (joint : Joint b e size reserve free queue) (proper : size ≤ kNull.toNat)
    (within : size ≤ capacity) (wide : size = capacity ∨ layout.size + 1 < size)
    {events : List BookEvent}
    (comparable : Run.Along both (fun books ev => Comparable books.1 books.2 ev) (b, e) events) :
    Run.Along both (fun books ev => Agrees books.1 books.2 ev) (b, e) events := by
  induction events generalizing b e free queue with
  | nil => trivial
  | cons ev rest ih =>
    obtain ⟨⟨_, _, after⟩, agrees⟩ := joint.step proper within wide comparable.1
    exact ⟨agrees, ih after comparable.2⟩

theorem create_joint (proper : size ≤ kNull.toNat) (within : size ≤ capacity) :
    ∃ reserve free queue, Joint (create capacity) (OrderBookEngine.create layout) size reserve free
      queue := by
  refine ⟨_, _, _, create_represents proper within, create_cached, ?_, ProbeTable.create_sound⟩
  rw [OrderBookEngine.create_spec]
  exact create_simulates

/-- Refinement: on every comparable stream the intrusive book and the reference book give the
same answers and show the same books after every event. -/
theorem agrees_with_reference (capacity : Nat) (events : List BookEvent)
    (comparable : Run.Along both (fun books ev => Comparable books.1 books.2 ev)
      (create capacity, OrderBookEngine.initial) events) :
    Run.Along both (fun books ev => Agrees books.1 books.2 ev)
      (create capacity, OrderBookEngine.initial) events := by
  have proper := Nat.min_le_right capacity kNull.toNat
  have within := Nat.min_le_left capacity kNull.toNat
  have wide : min capacity kNull.toNat = capacity ∨
      OrderBookEngine.orderLayout.size + 1 < min capacity kNull.toNat := by
    rcases Nat.le_total capacity kNull.toNat with small | large
    · exact Or.inl (Nat.min_eq_left small)
    · refine Or.inr ?_
      rw [Nat.min_eq_right large]
      decide
  obtain ⟨_, _, _, joint⟩ := create_joint proper within
  exact joint.run proper within wide comparable

theorem comparable_iff : Comparable b e ev ↔
    e.Lawful ev ∧ (ev.type = .delete → ev.qty = 0) ∧ b.liveOrderCount < capacity :=
  ⟨fun ⟨lawful, whole, room⟩ => ⟨lawful, whole, room⟩,
    fun ⟨lawful, whole, room⟩ => ⟨lawful, whole, room⟩⟩

instance (b : IntrusiveOrderBook capacity) (e : OrderBookEngine layout) (ev : BookEvent) :
    Decidable (Comparable b e ev) :=
  decidable_of_iff' _ comparable_iff

/-- An order that trades in part, is replaced under its own id and deleted, and an unknown id. -/
def replacedStream : List BookEvent :=
  [{ type := .add, orderId := 1, side := .buy, price := 1000000, qty := 100 },
    { type := .execute, orderId := 1, qty := 30 },
    { type := .replace, orderId := 1, referenceOrderId := 1, side := .buy, price := 1010000,
      qty := 50 },
    { type := .cancel, orderId := 7, qty := 10 },
    { type := .delete, orderId := 1 }]

theorem agrees_with_reference_replaced :
    Run.Along both (fun books ev => Agrees books.1 books.2 ev)
      (create 4, OrderBookEngine.initial) replacedStream :=
  agrees_with_reference 4 replacedStream (by decide +kernel)

end Joint

end IntrusiveOrderBook
end FeedHandler
