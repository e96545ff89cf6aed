import FeedHandler.Phase3.OrderBookEngine
import Mathlib.Data.List.AList

/-! The order book over a pool of nodes: every order is a node of a fixed pool, the nodes
of one price level are a doubly linked queue through the pool, and each side of a book
caches its best price. Indices are 32-bit words with one value that stands for no node. -/
namespace FeedHandler
namespace IntrusiveOrderBook

def kNull : UInt32 := 0xFFFFFFFF

structure OrderNode where
  key : UInt64 := 0
  symbolU64 : UInt64 := 0
  price : UInt32 := 0
  qty : UInt32 := 0
  prev : UInt32 := kNull
  next : UInt32 := kNull
  venue : Venue := .nasdaq
  side : Side := .unknown
  live : Bool := false
  deriving DecidableEq, Repr

structure Level where
  price : UInt32 := 0
  qty : UInt64 := 0
  head : UInt32 := kNull
  tail : UInt32 := kNull
  deriving DecidableEq, Repr

/-- One side of a book. The levels are a hash map: what is proved about scans over them
does not depend on the order of the entries. -/
structure SideBook where
  levels : AList (fun _ : UInt32 => Level) := ∅
  bestPrice : UInt32 := 0
  hasBest : Bool := false
  descending : Bool := false

structure VenueBook where
  bids : SideBook := { descending := true }
  asks : SideBook := { descending := false }

structure ApplyResult where
  changedTop : Bool := false
  orderPoolExhausted : Bool := false
  queueAheadBeforeAdd : UInt64 := 0
  topAfter : TopOfBook := {}
  deriving DecidableEq, Repr

namespace SideBook

def updateBestOnAdd (side : SideBook) (price : UInt32) : SideBook :=
  if !side.hasBest then { side with bestPrice := price, hasBest := true }
  else if priceBefore side.descending price side.bestPrice then { side with bestPrice := price }
  else side

def recomputeBest (side : SideBook) : SideBook :=
  side.levels.entries.foldl
    (fun side entry => if entry.2.qty = 0 then side else side.updateBestOnAdd entry.1)
    { side with hasBest := false, bestPrice := 0 }

/-- The level at a price, entered as an empty one if it is missing. -/
def findOrAddLevel (side : SideBook) (price : UInt32) : SideBook × Level :=
  match side.levels.lookup price with
  | some level => (side, level)
  | none =>
    let level : Level := { price := price }
    (updateBestOnAdd { side with levels := side.levels.insert price level } price, level)

def removeLevelIfEmpty (side : SideBook) (price : UInt32) : SideBook :=
  match side.levels.lookup price with
  | none => side
  | some level =>
    if level.qty ≠ 0 ∨ level.head ≠ kNull then side
    else
      let left := { side with levels := side.levels.erase price }
      if side.hasBest ∧ side.bestPrice = price then left.recomputeBest else left

/-- Write back a level that is held by reference. -/
def setLevel (side : SideBook) (price : UInt32) (level : Level) : SideBook :=
  { side with levels := side.levels.insert price level }

/-- The quantity at the best price, cut to 32 bits. -/
def bestQty (side : SideBook) : UInt32 :=
  ((side.levels.lookup side.bestPrice).map fun level => level.qty.toUInt32).getD 0

/-- All levels, sorted by price. -/
def sortedLevels (side : SideBook) (descending : Bool) : List BookLevel :=
  (side.levels.entries.map fun entry => (entry.1, entry.2.qty)).mergeSort
    (fun a b => !priceBefore descending b.1 a.1)

end SideBook

namespace VenueBook

def sideBook (book : VenueBook) (side : Side) : SideBook :=
  if side = .buy then book.bids else book.asks

def setSide (book : VenueBook) (side : Side) (content : SideBook) : VenueBook :=
  if side = .buy then { book with bids := content } else { book with asks := content }

/-- The best levels as the cache has them. -/
def top (book : VenueBook) : TopOfBook where
  hasBid := book.bids.hasBest
  hasAsk := book.asks.hasBest
  bidPrice := if book.bids.hasBest then book.bids.bestPrice else 0
  bidQty := if book.bids.hasBest then book.bids.bestQty else 0
  askPrice := if book.asks.hasBest then book.asks.bestPrice else 0
  askQty := if book.asks.hasBest then book.asks.bestQty else 0

end VenueBook
end IntrusiveOrderBook

open IntrusiveOrderBook (OrderNode Level SideBook kNull)

/-- Books, the pool with its free indices (the last freed one in front), and the nodes by
order key. Nodes outside the pool of `capacity` nodes are never read or written. -/
structure IntrusiveOrderBook (capacity : Nat) where
  books : Venue → UInt64 → IntrusiveOrderBook.VenueBook := fun _ _ => {}
  nodes : UInt32 → OrderNode := fun _ => {}
  freeList : List UInt32 := (List.range capacity).map UInt32.ofNat
  orderIndex : UInt64 → Option UInt32 := fun _ => none
  liveOrderCount : Nat := 0
  droppedOrderInserts : UInt64 := 0

namespace IntrusiveOrderBook

variable {capacity : Nat}

/-- The book as it is built. -/
def create (capacity : Nat) : IntrusiveOrderBook capacity := {}

def setSideBook (b : IntrusiveOrderBook capacity) (venue : Venue) (symbol : UInt64) (side : Side)
    (content : SideBook) : IntrusiveOrderBook capacity :=
  { b with
    books := Function.update b.books venue (Function.update (b.books venue) symbol
      ((b.books venue symbol).setSide side content)) }

/-- Take a free node; the index is null when the pool is exhausted. -/
def allocateNode (b : IntrusiveOrderBook capacity) : IntrusiveOrderBook capacity × UInt32 :=
  match b.freeList with
  | [] => ({ b with droppedOrderInserts := b.droppedOrderInserts + 1 }, kNull)
  | idx :: rest =>
    ({ b with
        nodes := Function.update b.nodes idx { live := true }
        freeList := rest
        liveOrderCount := b.liveOrderCount + 1 },
      idx)

def releaseNode (b : IntrusiveOrderBook capacity) (idx : UInt32) : IntrusiveOrderBook capacity :=
  if idx = kNull ∨ idx.toNat ≥ capacity ∨ (b.nodes idx).live = false then b
  else
    { b with
      nodes := Function.update b.nodes idx {}
      freeList := idx :: b.freeList
      liveOrderCount := b.liveOrderCount - 1 }

/-- Put a node at the end of a level's queue. -/
def appendNode (nodes : UInt32 → OrderNode) (level : Level) (idx : UInt32) (node : OrderNode) :
    (UInt32 → OrderNode) × Level :=
  let nodes := Function.update nodes idx { node with prev := level.tail }
  if level.tail ≠ kNull then
    (Function.update nodes level.tail { nodes level.tail with next := idx },
      { level with tail := idx, qty := level.qty + node.qty.toUInt64 })
  else
    (nodes, { level with head := idx, tail := idx, qty := level.qty + node.qty.toUInt64 })

/-- Enter the order of an event into its book; an event without a side is ignored. The flag
says that there was room, the quantity is what was queued at the level before. -/
def addOrder (b : IntrusiveOrderBook capacity) (ev : BookEvent) :
    IntrusiveOrderBook capacity × Bool × UInt64 :=
  if ev.side ≠ .buy ∧ ev.side ≠ .sell then (b, true, 0)
  else
    let allocated := b.allocateNode
    let b := allocated.1
    let idx := allocated.2
    if idx = kNull then (b, false, 0)
    else
      let symbol := ev.symbol.asU64
      let key := OrderBookEngine.orderKey ev.venue ev.orderId
      let found := ((b.books ev.venue symbol).sideBook ev.side).findOrAddLevel ev.price
      let appended := appendNode b.nodes found.2 idx
        { b.nodes idx with
          key := key, symbolU64 := symbol, price := ev.price, qty := ev.qty, venue := ev.venue,
          side := ev.side }
      ({ b.setSideBook ev.venue symbol ev.side (found.1.setLevel ev.price appended.2) with
          nodes := appended.1
          orderIndex := Function.update b.orderIndex key (some idx) },
        true, found.2.qty)

/-- Take a node out of a level's queue. -/
def unlinkNode (nodes : UInt32 → OrderNode) (level : Level) (node : OrderNode) :
    (UInt32 → OrderNode) × Level :=
  let forward :=
    if node.prev ≠ kNull then
      (Function.update nodes node.prev { nodes node.prev with next := node.next }, level)
    else (nodes, { level with head := node.next })
  if node.next ≠ kNull then
    (Function.update forward.1 node.next { forward.1 node.next with prev := node.prev }, forward.2)
  else (forward.1, { forward.2 with tail := node.prev })

/-- Take quantity off an order, all of it for quantity zero. Book, side and price are those
of the order. -/
def reduceOrder (b : IntrusiveOrderBook capacity) (key : UInt64) (qty : UInt32)
    (deleteAll : Bool) : IntrusiveOrderBook capacity :=
  match b.orderIndex key with
  | none => b
  | some idx =>
    let node := b.nodes idx
    let side := (b.books node.venue node.symbolU64).sideBook node.side
    match side.levels.lookup node.price with
    | none => releaseNode { b with orderIndex := Function.update b.orderIndex key none } idx
    | some level =>
      let dec := if deleteAll ∨ qty = 0 ∨ qty > node.qty then node.qty else qty
      let level := { level with
        qty := if level.qty > dec.toUInt64 then level.qty - dec.toUInt64 else 0 }
      let node := { node with qty := node.qty - dec }
      let nodes := Function.update b.nodes idx node
      if node.qty = 0 ∨ deleteAll then
        let unlinked := unlinkNode nodes level node
        let released := releaseNode
          { b with nodes := unlinked.1, orderIndex := Function.update b.orderIndex key none } idx
        released.setSideBook node.venue node.symbolU64 node.side
          ((side.setLevel node.price unlinked.2).removeLevelIfEmpty node.price)
      else
        { b.setSideBook node.venue node.symbolU64 node.side (side.setLevel node.price level) with
          nodes := nodes }

/-- The old order leaves, the new one takes over its side if the event has none. Whether
there was room for the new one is not reported. -/
def replaceOrder (b : IntrusiveOrderBook capacity) (ev : BookEvent) :
    IntrusiveOrderBook capacity :=
  let oldKey := OrderBookEngine.orderKey ev.venue ev.referenceOrderId
  match b.orderIndex oldKey with
  | none => (b.addOrder ev).1
  | some idx =>
    let side := if ev.side = .unknown then (b.nodes idx).side else ev.side
    ((b.reduceOrder oldKey 0 true).addOrder { ev with side := side }).1

/-- The change of the book by one event, whether the pool was exhausted, and the quantity
queued ahead of an added order. -/
def apply (b : IntrusiveOrderBook capacity) (ev : BookEvent) :
    IntrusiveOrderBook capacity × Bool × UInt64 :=
  match ev.type with
  | .add | .addMpid =>
    if ev.orderId ≠ 0 then
      let added := b.addOrder ev
      (added.1, !added.2.1, added.2.2)
    else (b, false, 0)
  | .execute | .executePrice | .cancel | .delete =>
    (b.reduceOrder (OrderBookEngine.orderKey ev.venue ev.orderId) ev.qty (ev.type = .delete),
      false, 0)
  | .replace => (b.replaceOrder ev, false, 0)
  | _ => (b, false, 0)

def onEvent (b : IntrusiveOrderBook capacity) (ev : BookEvent) :
    IntrusiveOrderBook capacity × ApplyResult :=
  let before := (b.books ev.venue ev.symbol.asU64).top
  let applied := b.apply ev
  let after := (applied.1.books ev.venue ev.symbol.asU64).top
  (applied.1,
    { changedTop := before != after
      orderPoolExhausted := applied.2.1
      queueAheadBeforeAdd := applied.2.2
      topAfter := after })

def topOfBook (b : IntrusiveOrderBook capacity) (venue : Venue) (symbol : UInt64) : TopOfBook :=
  (b.books venue symbol).top

/-- All levels of one book, best first. -/
def snapshot (b : IntrusiveOrderBook capacity) (venue : Venue) (symbol : UInt64) :
    FeedHandler.VenueBook where
  bids := (b.books venue symbol).bids.sortedLevels true
  asks := (b.books venue symbol).asks.sortedLevels false

end IntrusiveOrderBook
end FeedHandler
