import FeedHandler.Phase3.FeaturePipeline
import FeedHandler.Phase4.SimMatchingEngine

/-! The market-making strategy of the research runner. It keeps the states of the symbols
in a vector, and hands out intents in the order in which its sink receives them. -/
namespace FeedHandler

inductive StrategyEngine.OrderAction where
  | submit | cancel
  deriving DecidableEq, Repr

structure OrderIntent where
  action : StrategyEngine.OrderAction := .submit
  symbolU64 : UInt64 := 0
  side : OrderSide := .buy
  price : Int := 0
  qty : Nat := 0
  tsNs : UInt64 := 0
  orderId : Nat := 0
  deriving DecidableEq, Repr

namespace StrategyEngine

structure Config (D : Type*) [Binary64 D] where
  halfSpreadTicks : Int := 1
  quoteSize : Nat := 10
  maxInventory : Int := 1000
  inventorySkewTicksPerUnit : D := Binary64.ofNat 0
  ofiSkewCoef : D := Binary64.ofNat 0
  requoteThresholdTicks : Int := 1
  cancelReplaceCooldownNs : UInt64 := 0

structure SideOrder where
  orderId : Nat := 0
  side : OrderSide := .buy
  price : Int := 0
  active : Bool := false
  deriving DecidableEq, Repr

structure SymbolState where
  inventory : Int := 0
  bid : SideOrder := {}
  ask : SideOrder := {}
  lastCenter : Int := 0
  hasCenter : Bool := false
  lastRequoteTs : UInt64 := 0
  deriving DecidableEq, Repr

end StrategyEngine

structure StrategyEngine (D : Type*) [Binary64 D] where
  cfg : StrategyEngine.Config D := {}
  states : List (UInt64 × StrategyEngine.SymbolState) := []
  nextOrderId : Nat := 1

namespace StrategyEngine

variable {D : Type*} [Binary64 D]

/-- Write the first entry of a symbol; a missing one is pushed back. -/
def setState (symbol : UInt64) (st : SymbolState) :
    List (UInt64 × SymbolState) → List (UInt64 × SymbolState)
  | [] => [(symbol, st)]
  | (key, old) :: rest =>
    if key = symbol then (key, st) :: rest else (key, old) :: setState symbol st rest

def emitCancel (order : SideOrder) (symbol tsNs : UInt64) : SideOrder × List OrderIntent :=
  if order.active = false then (order, [])
  else ({}, [⟨.cancel, symbol, order.side, order.price, 0, tsNs, order.orderId⟩])

/-- The next order id, the state with the new quote, and the intent. -/
def emitSubmit (cfg : Config D) (nextOrderId : Nat) (symbol : UInt64) (st : SymbolState)
    (side : OrderSide) (price : Int) (tsNs : UInt64) : Nat × SymbolState × List OrderIntent :=
  (nextOrderId + 1,
    match side with
    | .buy => { st with bid := ⟨nextOrderId, side, price, true⟩ }
    | .sell => { st with ask := ⟨nextOrderId, side, price, true⟩ },
    [⟨.submit, symbol, side, price, cfg.quoteSize, tsNs, nextOrderId⟩])

def onFeature (t : StrategyEngine D) (fv : FeatureVector D) :
    StrategyEngine D × List OrderIntent :=
  let st := (t.states.lookup fv.symbolU64).getD {}
  let inv := min (max st.inventory (-t.cfg.maxInventory)) t.cfg.maxInventory
  let center := Binary64.llround (fv.microprice -
    Binary64.ofInt inv * t.cfg.inventorySkewTicksPerUnit - fv.ofi * t.cfg.ofiSkewCoef)
  let refreshByFirst := !st.hasCenter
  let refreshByMove := st.hasCenter &&
    t.cfg.requoteThresholdTicks ≤ ((center - st.lastCenter).natAbs : Int)
  let cooldownOk := st.lastRequoteTs ≤ fv.exchangeTsNs &&
    t.cfg.cancelReplaceCooldownNs ≤ fv.exchangeTsNs - st.lastRequoteTs
  if (!refreshByFirst && !refreshByMove) || !cooldownOk then
    ({ t with states := setState fv.symbolU64 st t.states }, [])
  else
    let (bid, cancelsBid) := emitCancel st.bid fv.symbolU64 fv.exchangeTsNs
    let (ask, cancelsAsk) := emitCancel st.ask fv.symbolU64 fv.exchangeTsNs
    let (afterBid, withBid, submitsBid) := emitSubmit t.cfg t.nextOrderId fv.symbolU64
      { st with bid := bid, ask := ask } .buy (center - t.cfg.halfSpreadTicks) fv.exchangeTsNs
    let (afterAsk, withAsk, submitsAsk) := emitSubmit t.cfg afterBid fv.symbolU64 withBid .sell
      (center + t.cfg.halfSpreadTicks) fv.exchangeTsNs
    ({ t with
        states := setState fv.symbolU64
          { withAsk with
            lastCenter := center, hasCenter := true, lastRequoteTs := fv.exchangeTsNs } t.states
        nextOrderId := afterAsk },
      cancelsBid ++ cancelsAsk ++ submitsBid ++ submitsAsk)

def onFill (t : StrategyEngine D) (symbol : UInt64) (fill : Fill) : StrategyEngine D :=
  match t.states.lookup symbol with
  | none => t
  | some st =>
    let isBid := st.bid.active && st.bid.orderId == fill.orderId
    let isAsk := st.ask.active && st.ask.orderId == fill.orderId
    if !isBid && !isAsk then t
    else
      { t with
        states := setState symbol
          { st with
            inventory := match fill.side with
              | .buy => st.inventory + fill.qty
              | .sell => st.inventory - fill.qty
            bid := if !fill.isPartial && isBid then {} else st.bid
            ask := if !fill.isPartial && isAsk then {} else st.ask
            hasCenter := false } t.states }

theorem lookup_entry (key head : UInt64) (st : SymbolState)
    (rest : List (UInt64 × SymbolState)) :
    ((head, st) :: rest).lookup key = if key = head then some st else rest.lookup key := by
  rw [List.lookup_cons]
  by_cases here : key = head
  · rw [beq_iff_eq.mpr here, if_pos here]
  · rw [beq_eq_false_iff_ne.mpr here, if_neg here]

theorem lookup_setState (symbol key : UInt64) (st : SymbolState)
    (states : List (UInt64 × SymbolState)) :
    (setState symbol st states).lookup key =
      if key = symbol then some st else states.lookup key := by
  induction states with
  | nil => exact lookup_entry key symbol st []
  | cons entry rest ih =>
    obtain ⟨head, old⟩ := entry
    simp only [setState]
    by_cases first : head = symbol
    · rw [if_pos first, lookup_entry, lookup_entry, first]
      split <;> rfl
    · rw [if_neg first, lookup_entry, lookup_entry, ih]
      by_cases here : key = head
      · have other : key ≠ symbol := fun same => first (here ▸ same)
        rw [if_pos here, if_neg other, if_pos here]
      · rw [if_neg here, if_neg here]

end StrategyEngine

end FeedHandler
