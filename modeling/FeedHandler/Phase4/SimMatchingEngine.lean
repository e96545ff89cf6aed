import FeedHandler.Core.Types
import FeedHandler.Lib.KWayMerge

/-! The simulated matching engine. Strategy orders rest in a private book of each symbol,
and only prints of the tape fill them. The fill callback never reaches back into the
engine, so a print returns its fills in the order in which they are reported. The budget
of a print, a share of its quantity that the source computes in floating point, comes
with the print. -/
namespace FeedHandler

inductive OrderSide where
  | buy | sell
  deriving DecidableEq, Repr

structure Fill where
  orderId : Nat := 0
  side : OrderSide := .buy
  price : Int := 0
  qty : Nat := 0
  tsNs : UInt64 := 0
  isPartial : Bool := false
  deriving DecidableEq, Repr

/-- A strategy order in the private book. -/
structure SimOrder where
  orderId : Nat := 0
  side : OrderSide := .buy
  price : Int := 0
  qty : Nat := 0
  tsNs : UInt64 := 0
  deriving DecidableEq, Repr

structure SymbolBook where
  bids : List SimOrder := []
  asks : List SimOrder := []
  deriving DecidableEq, Repr

/-- The orders of one side. -/
def SymbolBook.side (book : SymbolBook) : OrderSide → List SimOrder
  | .buy => book.bids
  | .sell => book.asks

structure SimMatchingEngine where
  books : UInt64 → Option SymbolBook := fun _ => none
  orderToSymbol : Nat → Option UInt64 := fun _ => none

/-- What one pass over a side leaves: its orders, the symbols still bound, and the fills. -/
structure FillPass where
  resting : List SimOrder
  orderToSymbol : Nat → Option UInt64
  fills : List Fill := []

namespace SimMatchingEngine

def bidBetter (a b : SimOrder) : Prop :=
  if a.price ≠ b.price then a.price > b.price else a.tsNs < b.tsNs

def askBetter (a b : SimOrder) : Prop :=
  if a.price ≠ b.price then a.price < b.price else a.tsNs < b.tsNs

instance : DecidableRel bidBetter := fun a b => by unfold bidBetter; infer_instance

instance : DecidableRel askBetter := fun a b => by unfold askBetter; infer_instance

theorem bidBetter_weakOrder : KWayMerge.WeakOrder bidBetter where
  asymm := by
    intro a b; simp only [bidBetter, UInt64.lt_iff_toNat_lt]; split <;> split <;> omega
  notLess := by
    intro a b c; simp only [bidBetter, UInt64.lt_iff_toNat_lt]; split <;> split <;> split <;> omega

theorem askBetter_weakOrder : KWayMerge.WeakOrder askBetter where
  asymm := by
    intro a b; simp only [askBetter, UInt64.lt_iff_toNat_lt]; split <;> split <;> omega
  notLess := by
    intro a b c; simp only [askBetter, UInt64.lt_iff_toNat_lt]; split <;> split <;> split <;> omega

/-- Which of two orders of a side comes first. -/
def better : OrderSide → SimOrder → SimOrder → Prop
  | .buy => bidBetter
  | .sell => askBetter

/-- The sort of the standard library at the two comparisons. -/
structure SideSorts where
  bids : UnstableSort bidBetter
  asks : UnstableSort askBetter

/-- Insertion sort on both sides. -/
def SideSorts.insertion : SideSorts :=
  ⟨UnstableSort.insertion bidBetter_weakOrder, UnstableSort.insertion askBetter_weakOrder⟩

def bindOrderSymbol (e : SimMatchingEngine) (orderId : Nat) (symbol : UInt64) :
    SimMatchingEngine :=
  if orderId = 0 then e
  else { e with orderToSymbol := Function.update e.orderToSymbol orderId (some symbol) }

/-- The book with an order entered on its side. -/
def enter (sorts : SideSorts) (book : SymbolBook) (o : SimOrder) : SymbolBook :=
  match o.side with
  | .buy => { book with bids := sorts.bids.sort (book.bids ++ [o]) }
  | .sell => { book with asks := sorts.asks.sort (book.asks ++ [o]) }

def submit (sorts : SideSorts) (e : SimMatchingEngine) (side : OrderSide) (price : Int)
    (qty orderId : Nat) (tsNs : UInt64) : SimMatchingEngine :=
  if orderId = 0 ∨ qty = 0 then e
  else
    match e.orderToSymbol orderId with
    | none => e
    | some symbol =>
      let book := enter sorts ((e.books symbol).getD {}) { orderId, side, price, qty, tsNs }
      { e with books := Function.update e.books symbol (some book) }

/-- `remove_order` on both sides of a book. -/
def removeOrder (book : SymbolBook) (orderId : Nat) : SymbolBook where
  bids := book.bids.filter (fun o => o.orderId ≠ orderId)
  asks := book.asks.filter (fun o => o.orderId ≠ orderId)

def cancel (e : SimMatchingEngine) (orderId : Nat) : SimMatchingEngine :=
  match e.orderToSymbol orderId with
  | none => e
  | some symbol =>
    match e.books symbol with
    | none => e
    | some book =>
      { books := Function.update e.books symbol (some (removeOrder book orderId))
        orderToSymbol := Function.update e.orderToSymbol orderId none }

/-- The loop of `fill_bids` and `fill_asks`: down the side until the budget is spent or an
order is out of the print's reach. -/
def fillOrders (side : OrderSide) (outOfReach : SimOrder → Bool) (tradePrice : Int)
    (tsNs : UInt64) : List SimOrder → Nat → (Nat → Option UInt64) → FillPass
  | [], _, bound => ⟨[], bound, []⟩
  | o :: rest, budget, bound =>
    if budget = 0 ∨ outOfReach o then ⟨o :: rest, bound, []⟩
    else
      let take := min o.qty budget
      let fills :=
        if take > 0 then [⟨o.orderId, side, tradePrice, take, tsNs, take < o.qty⟩] else []
      if o.qty - take = 0 then
        let pass := fillOrders side outOfReach tradePrice tsNs rest (budget - take)
          (Function.update bound o.orderId none)
        { pass with fills := fills ++ pass.fills }
      else
        let pass := fillOrders side outOfReach tradePrice tsNs rest (budget - take) bound
        { pass with
          resting := { o with qty := o.qty - take } :: pass.resting
          fills := fills ++ pass.fills }

def fillBids (book : SymbolBook) (tradePrice : Int) (fillBudget : Nat) (tsNs : UInt64)
    (bound : Nat → Option UInt64) : SymbolBook × FillPass :=
  let pass := fillOrders .buy (fun o => o.price < tradePrice) tradePrice tsNs book.bids fillBudget
    bound
  ({ book with bids := pass.resting }, pass)

def fillAsks (book : SymbolBook) (tradePrice : Int) (fillBudget : Nat) (tsNs : UInt64)
    (bound : Nat → Option UInt64) : SymbolBook × FillPass :=
  let pass := fillOrders .sell (fun o => o.price > tradePrice) tradePrice tsNs book.asks fillBudget
    bound
  ({ book with asks := pass.resting }, pass)

/-- Trade, ExecutePrice and CrossTrade. -/
def isPrint (type : EventType) : Bool :=
  type = .trade || type = .executePrice || type = .crossTrade

/-- The engine after a tape event, and the fills it reports. -/
def onMarketEvent (e : SimMatchingEngine) (ev : BookEvent) (budget : Nat) :
    SimMatchingEngine × List Fill :=
  if isPrint ev.type then
    match e.books ev.symbol.asU64 with
    | none => (e, [])
    | some book =>
      if ev.qty = 0 ∨ budget = 0 then (e, [])
      else
        let price := (ev.price.toNat : Int)
        match ev.side with
        | .sell =>
          let filled := fillBids book price budget ev.exchangeTsNs e.orderToSymbol
          ({ books := Function.update e.books ev.symbol.asU64 (some filled.1)
             orderToSymbol := filled.2.orderToSymbol }, filled.2.fills)
        | .buy =>
          let filled := fillAsks book price budget ev.exchangeTsNs e.orderToSymbol
          ({ books := Function.update e.books ev.symbol.asU64 (some filled.1)
             orderToSymbol := filled.2.orderToSymbol }, filled.2.fills)
        | .unknown => (e, [])
  else (e, [])

end SimMatchingEngine

end FeedHandler
