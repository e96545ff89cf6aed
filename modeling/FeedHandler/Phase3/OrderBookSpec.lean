import FeedHandler.Phase3.OrderBookEngine

/-! What the reference book is for, without its table: the live orders as a function of
their key, and the books. While the table takes every order, the engine refines it. -/
namespace FeedHandler

/-- The live orders by key, and the books by venue and symbol. -/
structure BookSpec where
  orders : UInt64 → Option OrderRef := fun _ => none
  books : Venue → UInt64 → VenueBook := fun _ _ => {}

namespace BookSpec

/-- The order that an event brings. -/
def broughtOrder (ev : BookEvent) (queueAhead : UInt64) : OrderRef where
  venue := ev.venue
  symbolU64 := ev.symbol.asU64
  side := ev.side
  price := ev.price
  qty := ev.qty
  queueAhead := queueAhead

/-- What a reduction takes off an order: quantity zero and any excess stand for all. -/
def taken (ev : BookEvent) (order : OrderRef) : UInt32 :=
  if ev.qty = 0 ∨ ev.qty > order.qty then order.qty else ev.qty

theorem taken_le (ev : BookEvent) (order : OrderRef) : taken ev order ≤ order.qty := by
  simp only [taken]
  split
  · exact UInt32.le_refl _
  · next part => exact UInt32.not_lt.mp (fun more => part (Or.inr more))

/-- What a reduction leaves of an order, if anything. -/
def remaining (ev : BookEvent) (order : OrderRef) : Option OrderRef :=
  if taken ev order ≥ order.qty ∨ ev.type = .delete then none
  else some { order with qty := order.qty - taken ev order }

/-- The quantity in front of a new order. -/
def queueAhead (book : VenueBook) (ev : BookEvent) : UInt64 :=
  match ev.side with
  | .buy => qtyAt book.bids ev.price true
  | _ => qtyAt book.asks ev.price false

variable (orders : UInt64 → Option OrderRef) (ev : BookEvent)

/-- The orders with the one that the event brings, unless its id is zero. -/
def enter (ahead : UInt64) : UInt64 → Option OrderRef :=
  if ev.orderId = 0 then orders
  else Function.update orders (OrderBookEngine.orderKey ev.venue ev.orderId)
    (some (broughtOrder ev ahead))

/-- The order that the event's id names. -/
def named : Option OrderRef := orders (OrderBookEngine.orderKey ev.venue ev.orderId)

/-- The order that a Replace refers to. -/
def referenced : Option OrderRef :=
  orders (OrderBookEngine.orderKey ev.venue ev.referenceOrderId)

def ordersAfter (ahead : UInt64) : UInt64 → Option OrderRef :=
  match ev.type with
  | .add | .addMpid => enter orders ev ahead
  | .execute | .executePrice | .cancel | .delete =>
    Function.update orders (OrderBookEngine.orderKey ev.venue ev.orderId)
      ((named orders ev).bind (remaining ev))
  | .replace =>
    enter (Function.update orders (OrderBookEngine.orderKey ev.venue ev.referenceOrderId) none) ev 0
  | _ => orders

variable {ev} in
theorem ordersAfter_reduces (ahead : UInt64) (reduces : ev.type.reduces = true) :
    ordersAfter orders ev ahead = Function.update orders
      (OrderBookEngine.orderKey ev.venue ev.orderId) ((named orders ev).bind (remaining ev)) := by
  cases kind : ev.type <;> rw [kind] at reduces
  case execute | executePrice | cancel | delete => simp only [ordersAfter, kind]
  all_goals exact absurd reduces Bool.false_ne_true

/-- The book without the order that a Replace refers to. -/
def withoutReferenced (book : VenueBook) : VenueBook :=
  match referenced orders ev with
  | none => book
  | some order => book.reduce order.side order.price order.qty

/-- The event's own book after the event. -/
def bookAfter (book : VenueBook) : VenueBook :=
  match ev.type with
  | .add | .addMpid => book.add ev.side ev.price ev.qty
  | .execute | .executePrice | .cancel | .delete =>
    match named orders ev with
    | none => book
    | some order => book.reduce order.side order.price (taken ev order)
  | .replace => (withoutReferenced orders ev book).add ev.side ev.price ev.qty
  | _ => book

/-- The book that an event works on. -/
def ownBook (s : BookSpec) (ev : BookEvent) : VenueBook := s.books ev.venue ev.symbol.asU64

def step (s : BookSpec) (ev : BookEvent) : BookSpec where
  orders := ordersAfter s.orders ev (queueAhead (s.ownBook ev) ev)
  books := Function.update s.books ev.venue (Function.update (s.books ev.venue) ev.symbol.asU64
    (bookAfter s.orders ev (s.ownBook ev)))

/-- What an event answers, apart from the room in the table. -/
def result (s : BookSpec) (ev : BookEvent) : ApplyResult where
  changedTop := (s.ownBook ev).top != ((s.step ev).ownBook ev).top
  queueAheadBeforeAdd := match ev.type with
    | .add | .addMpid => queueAhead (s.ownBook ev) ev
    | _ => 0
  topAfter := ((s.step ev).ownBook ev).top

end BookSpec

namespace OrderBookEngine
open BookSpec

variable {layout : ProbeLayout UInt64} {e : OrderBookEngine layout} {ev : BookEvent}

/-- The engine without the slots of its table. -/
def spec (e : OrderBookEngine layout) : BookSpec := ⟨e.orders.find?, e.books⟩

/-- The change of the books and the table by one event. -/
def step (e : OrderBookEngine layout) (ev : BookEvent) : OrderBookEngine layout := (e.onEvent ev).1

/-- The engine as it is built. -/
def initial : OrderBookEngine orderLayout := create orderLayout

/-- The table takes the order of the event. -/
def Unsaturated (e : OrderBookEngine layout) (ev : BookEvent) : Prop :=
  (e.onEvent ev).2.orderTableSaturated = false

instance (e : OrderBookEngine layout) (ev : BookEvent) : Decidable (e.Unsaturated ev) :=
  inferInstanceAs (Decidable (_ = false))

theorem create_spec : (create layout).spec = {} := by
  have empty : (create layout).orders.find? = fun _ => none := by
    funext key
    apply Option.eq_none_iff_forall_ne_some.mpr
    intro order found
    obtain ⟨i, held⟩ := ProbeTable.create_sound.find?_iff.mp found
    cases held
  exact congrArg (fun orders => BookSpec.mk orders _) empty

/-- Storing an order that the table takes. -/
theorem putOrder_spec (sound : e.orders.Sound) {ahead : UInt64}
    (stored : (e.putOrder ev ahead).2 = false) :
    (e.putOrder ev ahead).1.orders.Sound ∧
      (e.putOrder ev ahead).1.orders.find? = enter e.orders.find? ev ahead := by
  simp only [putOrder, enter] at stored ⊢
  split
  · exact ⟨sound, rfl⟩
  · next nonzero =>
    simp only [if_neg nonzero, Bool.not_eq_false'] at stored
    have put := sound.put stored
    refine ⟨put.sound, ?_⟩
    funext key
    rw [put.find?_eq sound, Function.update_apply]
    rfl

theorem applyReduce_some {order : OrderRef}
    (found : e.orders.find? (orderKey ev.venue ev.orderId) = some order) :
    e.applyReduce ev =
      { e.setBook ev.venue ev.symbol.asU64 ((e.books ev.venue ev.symbol.asU64).reduce order.side
          order.price (taken ev order)) with
        orders :=
          if taken ev order ≥ order.qty ∨ ev.type = .delete then
            e.orders.erase (orderKey ev.venue ev.orderId)
          else e.orders.assign (orderKey ev.venue ev.orderId)
            { order with qty := order.qty - taken ev order } } := by
  by_cases gone : taken ev order ≥ order.qty ∨ ev.type = .delete
  · rw [if_pos gone]
    simp only [applyReduce, found]
    exact if_pos gone
  · rw [if_neg gone]
    simp only [applyReduce, found]
    exact if_neg gone

theorem applyReduce_spec (sound : e.orders.Sound) :
    (e.applyReduce ev).orders.Sound ∧
      (e.applyReduce ev).orders.find? =
        Function.update e.orders.find? (orderKey ev.venue ev.orderId)
          ((named e.orders.find? ev).bind (remaining ev)) := by
  cases found : e.orders.find? (orderKey ev.venue ev.orderId) with
  | none =>
    simp only [applyReduce, named, found, Option.bind_none]
    refine ⟨sound, ?_⟩
    rw [← found, Function.update_eq_self]
  | some order =>
    rw [applyReduce_some found]
    simp only [named, found, Option.bind_some, remaining]
    split
    · refine ⟨sound.erase _, ?_⟩
      funext key
      rw [sound.find?_erase, Function.update_apply]
    · refine ⟨sound.assign _ _, ?_⟩
      funext key
      rw [sound.find?_assign found, Function.update_apply]

/-- The first half of a Replace: the old order leaves. -/
def withoutReferenced (e : OrderBookEngine layout) (ev : BookEvent) : OrderBookEngine layout :=
  match e.orders.find? (orderKey ev.venue ev.referenceOrderId) with
  | none => e
  | some order =>
    { e.setBook ev.venue ev.symbol.asU64
        ((e.books ev.venue ev.symbol.asU64).reduce order.side order.price order.qty) with
      orders := e.orders.erase (orderKey ev.venue ev.referenceOrderId) }

theorem applyReplace_eq (e : OrderBookEngine layout) (ev : BookEvent) : e.applyReplace ev =
    (((e.withoutReferenced ev).setBook ev.venue ev.symbol.asU64
      (((e.withoutReferenced ev).books ev.venue ev.symbol.asU64).add ev.side ev.price
        ev.qty)).putOrder ev 0) := by
  simp only [applyReplace, withoutReferenced]
  cases e.orders.find? (orderKey ev.venue ev.referenceOrderId) <;> rfl

theorem withoutReferenced_books (e : OrderBookEngine layout) (ev : BookEvent) :
    (e.withoutReferenced ev).books = (e.setBook ev.venue ev.symbol.asU64
      (BookSpec.withoutReferenced e.orders.find? ev (e.books ev.venue ev.symbol.asU64))).books := by
  simp only [withoutReferenced, BookSpec.withoutReferenced, referenced]
  cases found : e.orders.find? (orderKey ev.venue ev.referenceOrderId) with
  | none => simp only [setBook, Function.update_eq_self]
  | some order => rfl

/-- What an event does to the books, taken or rejected by the table: its own book alone
changes, and the orders say how. -/
theorem step_bookAfter (e : OrderBookEngine layout) (ev : BookEvent) :
    (e.step ev).books = (e.setBook ev.venue ev.symbol.asU64
      (bookAfter e.orders.find? ev (e.books ev.venue ev.symbol.asU64))).books := by
  have idle : e.books =
      (e.setBook ev.venue ev.symbol.asU64 (e.books ev.venue ev.symbol.asU64)).books := by
    simp only [setBook, Function.update_eq_self]
  simp only [step, onEvent, apply, bookAfter]
  cases ev.type
  case add | addMpid => exact putOrder_books _ _ _
  case execute | executePrice | cancel | delete =>
    simp only [named]
    cases found : e.orders.find? (orderKey ev.venue ev.orderId) with
    | none =>
      simp only [applyReduce, found]
      exact idle
    | some order => rw [applyReduce_some found]
  case replace =>
    rw [applyReplace_eq, putOrder_books]
    simp only [setBook, withoutReferenced_books, Function.update_self, Function.update_idem]
  all_goals exact idle

theorem withoutReferenced_spec (ev : BookEvent) (sound : e.orders.Sound) :
    (e.withoutReferenced ev).orders.Sound ∧
      (e.withoutReferenced ev).orders.find? =
        Function.update e.orders.find? (orderKey ev.venue ev.referenceOrderId) none := by
  cases found : e.orders.find? (orderKey ev.venue ev.referenceOrderId) with
  | none =>
    simp only [withoutReferenced, found]
    refine ⟨sound, ?_⟩
    rw [← found, Function.update_eq_self]
  | some order =>
    simp only [withoutReferenced, found]
    refine ⟨sound.erase _, ?_⟩
    funext key
    rw [sound.find?_erase, Function.update_apply]

/-- What an event does to the live orders, if the table takes its order. -/
theorem apply_spec (sound : e.orders.Sound) (stored : (e.apply ev).2.1 = false) :
    (e.apply ev).1.orders.Sound ∧
      (e.apply ev).1.orders.find? =
        ordersAfter e.orders.find? ev (queueAhead (e.spec.ownBook ev) ev) := by
  cases kind : ev.type <;> simp only [apply, ordersAfter, kind] at stored ⊢
  case add | addMpid => exact putOrder_spec (e := e.setBook _ _ _) sound stored
  case execute | executePrice | cancel | delete => exact applyReduce_spec sound
  case replace =>
    rw [applyReplace_eq] at stored ⊢
    obtain ⟨removed, left⟩ := withoutReferenced_spec ev sound
    obtain ⟨kept, orders⟩ := putOrder_spec (e := (e.withoutReferenced ev).setBook _ _ _) removed
      stored
    exact ⟨kept, orders.trans (congrArg (fun orders => enter orders ev 0) left)⟩
  all_goals exact ⟨sound, trivial⟩

/-- Refinement: while the table takes every order, the engine does what the spec does. -/
theorem step_spec (sound : e.orders.Sound) (unsaturated : e.Unsaturated ev) :
    (e.step ev).orders.Sound ∧ (e.step ev).spec = e.spec.step ev ∧
      (e.onEvent ev).2 = e.spec.result ev := by
  obtain ⟨kept, orders⟩ := apply_spec sound unsaturated
  have refined : (e.apply ev).1.spec = e.spec.step ev :=
    congrArg₂ BookSpec.mk orders (step_bookAfter e ev)
  have ahead : (e.apply ev).2.2 = (e.spec.result ev).queueAheadBeforeAdd := by
    cases kind : ev.type <;> simp only [apply, result, kind] <;> rfl
  refine ⟨kept, refined, ?_⟩
  simp only [onEvent, ahead]
  simp only [result, ← refined]
  congr 1

end OrderBookEngine
end FeedHandler
