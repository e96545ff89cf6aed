import FeedHandler.Core.Types
import FeedHandler.Lib.FlatMap
import FeedHandler.Lib.ProbeTable

/-! The reference order book: price levels per venue and symbol, and one table of live
orders for all of them. The book an event works on is the one of the event's own
symbol; the order table remembers price, quantity and side of an order. -/
namespace FeedHandler

structure TopOfBook where
  hasBid : Bool := false
  hasAsk : Bool := false
  bidPrice : UInt32 := 0
  bidQty : UInt32 := 0
  askPrice : UInt32 := 0
  askQty : UInt32 := 0
  deriving DecidableEq, Repr

/-- A price level: the price and the quantity resting there. -/
abbrev BookLevel := UInt32 × UInt64

structure VenueBook where
  bids : List BookLevel := []
  asks : List BookLevel := []
  deriving DecidableEq, Repr

/-- The order bids and asks are kept in. -/
def priceBefore (descending : Bool) (price value : UInt32) : Bool :=
  if descending then price > value else price < value

def qtyAt (levels : List BookLevel) (price : UInt32) (descending : Bool) : UInt64 :=
  (FlatMap.find? (priceBefore descending) levels price).getD 0

def addQty (levels : List BookLevel) (price qty : UInt32) (descending : Bool) : List BookLevel :=
  FlatMap.alter (priceBefore descending) levels price fun
    | some resting => some (resting + qty.toUInt64)
    | none => some qty.toUInt64

def reduceQty (levels : List BookLevel) (price qty : UInt32) (descending : Bool) :
    List BookLevel :=
  FlatMap.alter (priceBefore descending) levels price fun
    | some resting => if resting > qty.toUInt64 then some (resting - qty.toUInt64) else none
    | none => none

namespace VenueBook

/-- Add quantity on one side; an unknown side changes nothing. -/
def add (book : VenueBook) (side : Side) (price qty : UInt32) : VenueBook :=
  match side with
  | .buy => { book with bids := addQty book.bids price qty true }
  | .sell => { book with asks := addQty book.asks price qty false }
  | .unknown => book

def reduce (book : VenueBook) (side : Side) (price qty : UInt32) : VenueBook :=
  match side with
  | .buy => { book with bids := reduceQty book.bids price qty true }
  | .sell => { book with asks := reduceQty book.asks price qty false }
  | .unknown => book

/-- The best levels; the quantities are cut to 32 bits. -/
def top (book : VenueBook) : TopOfBook where
  hasBid := !book.bids.isEmpty
  hasAsk := !book.asks.isEmpty
  bidPrice := (book.bids.head?.map Prod.fst).getD 0
  bidQty := (book.bids.head?.map fun level => level.2.toUInt32).getD 0
  askPrice := (book.asks.head?.map Prod.fst).getD 0
  askQty := (book.asks.head?.map fun level => level.2.toUInt32).getD 0

end VenueBook

/-- What one book of a venue and symbol being replaced leaves of the others. -/
theorem update_book {β : Type*} (books : Venue → UInt64 → β) (venue other : Venue)
    (symbol key : UInt64) (book : β) :
    Function.update books venue (Function.update (books venue) symbol book) other key =
      if other = venue ∧ key = symbol then book else books other key := by
  by_cases here : other = venue
  · subst here
    by_cases same : key = symbol
    · subst same
      simp
    · simp [same]
  · simp [here]

structure OrderRef where
  venue : Venue := .nasdaq
  symbolU64 : UInt64 := 0
  side : Side := .unknown
  price : UInt32 := 0
  qty : UInt32 := 0
  queueAhead : UInt64 := 0
  deriving DecidableEq, Repr

structure ApplyResult where
  changedTop : Bool := false
  orderTableSaturated : Bool := false
  queueAheadBeforeAdd : UInt64 := 0
  topAfter : TopOfBook := {}
  deriving DecidableEq, Repr

/-- Books by venue and symbol key. A book that was never touched and an empty one
answer every query alike, so a missing book is the empty one. -/
structure OrderBookEngine (layout : ProbeLayout UInt64) where
  books : Venue → UInt64 → VenueBook := fun _ _ => {}
  orders : ProbeTable layout OrderRef

namespace OrderBookEngine

def orderKey (venue : Venue) (orderId : UInt64) : UInt64 :=
  (venue.code.toUInt64 <<< 56) ^^^ orderId

def mixKey (key : UInt64) : UInt64 :=
  let key := key ^^^ (key >>> 33)
  let key := key * 0xff51afd7ed558ccd
  let key := key ^^^ (key >>> 33)
  let key := key * 0xc4ceb9fe1a85ec53
  key ^^^ (key >>> 33)

/-- The order table as it is built: `2 ^ 21` slots, probed from the mixed key. -/
def orderLayout : ProbeLayout UInt64 where
  size := 2097152
  size_pos := by decide
  hash := fun key => (mixKey key).toNat

variable {layout : ProbeLayout UInt64}

def create (layout : ProbeLayout UInt64) : OrderBookEngine layout where
  orders := .create layout OrderRef

def setBook (e : OrderBookEngine layout) (venue : Venue) (symbol : UInt64) (book : VenueBook) :
    OrderBookEngine layout :=
  { e with books := Function.update e.books venue (Function.update (e.books venue) symbol book) }

theorem setBook_book (e : OrderBookEngine layout) (venue other : Venue) (symbol key : UInt64)
    (book : VenueBook) :
    (e.setBook venue symbol book).books other key =
      if other = venue ∧ key = symbol then book else e.books other key :=
  update_book e.books venue other symbol key book

/-- Insert the order of an event under its id, unless the id is zero; the flag says
that the table rejected it. -/
def putOrder (e : OrderBookEngine layout) (ev : BookEvent) (queueAhead : UInt64) :
    OrderBookEngine layout × Bool :=
  if ev.orderId = 0 then (e, false)
  else
    let stored := e.orders.put (orderKey ev.venue ev.orderId)
      { venue := ev.venue, symbolU64 := ev.symbol.asU64, side := ev.side, price := ev.price,
        qty := ev.qty, queueAhead := queueAhead }
    ({ e with orders := stored.1 }, !stored.2)

theorem putOrder_books (e : OrderBookEngine layout) (ev : BookEvent) (ahead : UInt64) :
    (e.putOrder ev ahead).1.books = e.books := by
  simp only [putOrder]
  split <;> rfl

/-- Add and AddMpid: the level grows whether or not the table takes the order. -/
def applyAdd (e : OrderBookEngine layout) (ev : BookEvent) :
    OrderBookEngine layout × Bool × UInt64 :=
  let book := e.books ev.venue ev.symbol.asU64
  let ahead := match ev.side with
    | .buy => qtyAt book.bids ev.price true
    | _ => qtyAt book.asks ev.price false
  let stored := (e.setBook ev.venue ev.symbol.asU64 (book.add ev.side ev.price ev.qty)).putOrder
    ev ahead
  (stored.1, stored.2, ahead)

/-- Execute, ExecutePrice, Cancel and Delete: price and side come from the order, the
book from the event. Quantity zero stands for all that remains. -/
def applyReduce (e : OrderBookEngine layout) (ev : BookEvent) : OrderBookEngine layout :=
  let key := orderKey ev.venue ev.orderId
  match e.orders.find? key with
  | none => e
  | some order =>
    let dec := if ev.qty = 0 ∨ ev.qty > order.qty then order.qty else ev.qty
    let book := e.books ev.venue ev.symbol.asU64
    let e := e.setBook ev.venue ev.symbol.asU64 (book.reduce order.side order.price dec)
    if dec ≥ order.qty ∨ ev.type = .delete then { e with orders := e.orders.erase key }
    else { e with orders := e.orders.assign key { order with qty := order.qty - dec } }

/-- Replace: the old order leaves with its own side, the new one enters with the side
and the symbol of the event. -/
def applyReplace (e : OrderBookEngine layout) (ev : BookEvent) : OrderBookEngine layout × Bool :=
  let oldKey := orderKey ev.venue ev.referenceOrderId
  let book := e.books ev.venue ev.symbol.asU64
  let removed := match e.orders.find? oldKey with
    | none => e
    | some order =>
      let e := e.setBook ev.venue ev.symbol.asU64 (book.reduce order.side order.price order.qty)
      { e with orders := e.orders.erase oldKey }
  let book := removed.books ev.venue ev.symbol.asU64
  (removed.setBook ev.venue ev.symbol.asU64 (book.add ev.side ev.price ev.qty)).putOrder ev 0

/-- The change of the books and the order table, whether the table was saturated, and
the quantity queued ahead of an added order. -/
def apply (e : OrderBookEngine layout) (ev : BookEvent) :
    OrderBookEngine layout × Bool × UInt64 :=
  match ev.type with
  | .add | .addMpid => e.applyAdd ev
  | .execute | .executePrice | .cancel | .delete => (e.applyReduce ev, false, 0)
  | .replace =>
    let applied := e.applyReplace ev
    (applied.1, applied.2, 0)
  | _ => (e, false, 0)

def onEvent (e : OrderBookEngine layout) (ev : BookEvent) :
    OrderBookEngine layout × ApplyResult :=
  let before := (e.books ev.venue ev.symbol.asU64).top
  let applied := e.apply ev
  let after := (applied.1.books ev.venue ev.symbol.asU64).top
  (applied.1,
    { changedTop := before != after
      orderTableSaturated := applied.2.1
      queueAheadBeforeAdd := applied.2.2
      topAfter := after })

def topOfBook (e : OrderBookEngine layout) (venue : Venue) (symbol : UInt64) : TopOfBook :=
  (e.books venue symbol).top

/-- All levels of one book, best first. -/
def snapshot (e : OrderBookEngine layout) (venue : Venue) (symbol : UInt64) : VenueBook :=
  e.books venue symbol

end OrderBookEngine
end FeedHandler
