import Mathlib.Data.List.Count
import FeedHandler.Core.Binary64
import FeedHandler.Core.Types

/-! Lowering Bitfinex book rows to events. The tracker remembers the orders that are on
the book; it decides whether a row adds an order, replaces it or removes it. -/
namespace FeedHandler

namespace Bitfinex

structure BookRow (D : Type*) where
  orderId : UInt64
  price : D
  amount : D

structure FixedPointStats where
  priceReject : Nat := 0
  qtyReject : Nat := 0
  deriving DecidableEq, Repr

structure LoweringStats where
  fixedPoint : FixedPointStats := {}
  adds : Nat := 0
  replaces : Nat := 0
  cancels : Nat := 0
  skippedNotOnBook : Nat := 0
  rejected : Nat := 0
  deriving DecidableEq, Repr

structure RestingOrder where
  price : UInt32 := 0
  qty : UInt32 := 0
  deriving DecidableEq, Repr

/-- The orders on the book, by id. -/
abbrev OnBookTracker := UInt64 → Option RestingOrder

namespace OnBookTracker

def contains (tracker : OnBookTracker) (orderId : UInt64) : Bool := (tracker orderId).isSome

/-- `insert` and `update` write the entry alike. -/
def insert (tracker : OnBookTracker) (orderId : UInt64) (order : RestingOrder) : OnBookTracker :=
  Function.update tracker orderId (some order)

def erase (tracker : OnBookTracker) (orderId : UInt64) : OnBookTracker :=
  Function.update tracker orderId none

def clear : OnBookTracker := fun _ => none

end OnBookTracker

section Conversion

variable {D : Type*} [Binary64 D]

open Binary64 (ofNat)

def toU32Bounded (v : D) : Option UInt32 :=
  if Binary64.isFinite v = false ∨ v < ofNat 0 then none
  else
    let rounded := Binary64.round v
    if ofNat 4294967295 < rounded then none
    else some (UInt32.ofNat (Binary64.toInt rounded).toNat)

def priceToU32 (price : D) : Option UInt32 := toU32Bounded (price * ofNat 10000)

def qtyToU32MicroBase (absAmount : D) : Option UInt32 :=
  toU32Bounded (absAmount * ofNat 1000000)

def sideFromAmount (amount : D) : Side :=
  if ofNat 0 < amount then .buy
  else if amount < ofNat 0 then .sell
  else .unknown

/-- The row removes its order. -/
def BookRow.removal (row : BookRow D) : Bool := Binary64.equals row.price (ofNat 0)

/-- Price and quantity in fixed point; the quantity is looked at only if the price fits. -/
def BookRow.convert (row : BookRow D) (stats : LoweringStats) :
    Option RestingOrder × LoweringStats :=
  match priceToU32 row.price with
  | none =>
    (none, { stats with
      rejected := stats.rejected + 1
      fixedPoint := { stats.fixedPoint with priceReject := stats.fixedPoint.priceReject + 1 } })
  | some price =>
    match qtyToU32MicroBase (Binary64.fabs row.amount) with
    | none =>
      (none, { stats with
        rejected := stats.rejected + 1
        fixedPoint := { stats.fixedPoint with qtyReject := stats.fixedPoint.qtyReject + 1 } })
    | some qty => (some ⟨price, qty⟩, stats)

end Conversion

/-- The first eight bytes of the wire name. -/
def symbolFromWire (wire : List UInt8) : SymbolKey := ⟨BigEndian.sliceAt wire 0 8⟩

def makeBase (sequence tsNs : UInt64) (symbol : SymbolKey) : BookEvent where
  venue := .bitfinex
  sequence := sequence
  exchangeTsNs := tsNs
  ingestTsNs := tsNs
  symbol := symbol

section Lowering

variable {D : Type*} [Binary64 D]

def cancelEvent (row : BookRow D) (sequence tsNs : UInt64) (wire : List UInt8) : BookEvent :=
  { makeBase sequence tsNs (symbolFromWire wire) with
    type := .cancel
    rawType := 'X'.toUInt8
    orderId := row.orderId
    side := sideFromAmount row.amount
    qty := 0 }

def addEvent (row : BookRow D) (order : RestingOrder) (sequence tsNs : UInt64)
    (wire : List UInt8) : BookEvent :=
  { makeBase sequence tsNs (symbolFromWire wire) with
    type := .add
    rawType := 'A'.toUInt8
    orderId := row.orderId
    side := sideFromAmount row.amount
    price := order.price
    qty := order.qty }

def replaceEvent (row : BookRow D) (order prev : RestingOrder) (sequence tsNs : UInt64)
    (wire : List UInt8) : BookEvent :=
  { makeBase sequence tsNs (symbolFromWire wire) with
    type := .replace
    rawType := 'R'.toUInt8
    orderId := row.orderId
    referenceOrderId := row.orderId
    side := sideFromAmount row.amount
    price := order.price
    qty := order.qty
    prevPrice := prev.price
    prevQty := prev.qty }

/-- What lowering hands back: the events, the tracker and the counters. -/
structure Lowered where
  events : List BookEvent := []
  onBook : OnBookTracker
  stats : LoweringStats

def lowerRow (row : BookRow D) (sequence tsNs : UInt64) (wire : List UInt8)
    (onBook : OnBookTracker) (stats : LoweringStats) : Lowered :=
  if row.removal then
    if onBook.contains row.orderId then
      { events := [cancelEvent row sequence tsNs wire]
        onBook := onBook.erase row.orderId
        stats := { stats with cancels := stats.cancels + 1 } }
    else { onBook, stats := { stats with skippedNotOnBook := stats.skippedNotOnBook + 1 } }
  else
    match row.convert stats with
    | (none, stats) => { onBook, stats }
    | (some order, stats) =>
      match onBook row.orderId with
      | none =>
        { events := [addEvent row order sequence tsNs wire]
          onBook := onBook.insert row.orderId order
          stats := { stats with adds := stats.adds + 1 } }
      | some prev =>
        { events := [replaceEvent row order prev sequence tsNs wire]
          onBook := onBook.insert row.orderId order
          stats := { stats with replaces := stats.replaces + 1 } }

def lowerSnapshotRows (tsNs : UInt64) (wire : List UInt8) :
    List (BookRow D) → OnBookTracker → LoweringStats → Lowered
  | [], onBook, stats => { onBook, stats }
  | row :: rest, onBook, stats =>
    if row.removal then lowerSnapshotRows tsNs wire rest onBook stats
    else
      match row.convert stats with
      | (none, stats) => lowerSnapshotRows tsNs wire rest onBook stats
      | (some order, stats) =>
        let lowered := lowerSnapshotRows tsNs wire rest (onBook.insert row.orderId order)
          { stats with adds := stats.adds + 1 }
        { lowered with events := addEvent row order 0 tsNs wire :: lowered.events }

end Lowering

end Bitfinex

end FeedHandler
