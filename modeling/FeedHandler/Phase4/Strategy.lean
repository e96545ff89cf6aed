import FeedHandler.Lib.StateTable
import FeedHandler.Phase3.FeaturePipeline
import FeedHandler.Phase4.SimMatchingEngine

/-! The market-making strategy. It quotes a bid and an ask around a centre computed from
the features of a symbol, and replaces both when the centre moves. The strategy never reads
from its router, so it returns the calls it makes in the order in which it makes them. -/
namespace FeedHandler

/-- The calls of an order router. -/
inductive RouterCall where
  | submit (symbol : UInt64) (side : OrderSide) (price : Int) (qty : Nat) (tsNs : UInt64)
    (orderId : Nat)
  | cancel (orderId : Nat) (tsNs : UInt64)
  deriving DecidableEq, Repr

namespace MarketMakingStrategy

structure Config (D : Type*) [Binary64 D] where
  halfSpreadTicks : Int := 1
  quoteSize : Nat := 10
  maxInventory : Int := 1000
  inventorySkewTicksPerUnit : D := Binary64.ofNat 0
  ofiSkewCoef : D := Binary64.ofNat 0
  requoteThresholdTicks : Int := 1
  cancelReplaceCooldownNs : UInt64 := 0

structure SideOrder where
  orderId : Nat := 0
  price : Int := 0
  active : Bool := false
  deriving DecidableEq, Repr

structure SymbolState where
  inventory : Int := 0
  bid : SideOrder := {}
  ask : SideOrder := {}
  lastCenter : Int := 0
  hasCenter : Bool := false
  lastRequoteTs : UInt64 := 0
  deriving DecidableEq, Repr

end MarketMakingStrategy

structure MarketMakingStrategy (D : Type*) [Binary64 D] where
  cfg : MarketMakingStrategy.Config D := {}
  bySymbol : StateTable UInt64 ({} : MarketMakingStrategy.SymbolState) := .empty
  nextOrderId : Nat := 1

namespace MarketMakingStrategy

variable {D : Type*} [Binary64 D]

/-- The quote of one side. -/
def SymbolState.quote (st : SymbolState) : OrderSide → SideOrder
  | .buy => st.bid
  | .sell => st.ask

def centerTicks (cfg : Config D) (st : SymbolState) (fv : FeatureVector D) : Int :=
  let inv := min (max st.inventory (-cfg.maxInventory)) cfg.maxInventory
  Binary64.llround
    (fv.microprice - Binary64.ofInt inv * cfg.inventorySkewTicksPerUnit - fv.ofi * cfg.ofiSkewCoef)

/-- Whether a feature vector makes the strategy requote. -/
def refreshes (cfg : Config D) (st : SymbolState) (fv : FeatureVector D) : Bool :=
  let refreshByFirst := !st.hasCenter
  let refreshByMove := st.hasCenter &&
    cfg.requoteThresholdTicks ≤ ((centerTicks cfg st fv - st.lastCenter).natAbs : Int)
  let cooldownOk := st.lastRequoteTs ≤ fv.exchangeTsNs &&
    cfg.cancelReplaceCooldownNs ≤ fv.exchangeTsNs - st.lastRequoteTs
  (refreshByFirst || refreshByMove) && cooldownOk

/-- The cancel of a quote that is active. -/
def SideOrder.cancel (order : SideOrder) (tsNs : UInt64) : List RouterCall :=
  if order.active then [.cancel order.orderId tsNs] else []

/-- The state of the symbol, the next order id and the calls of the router. -/
def requote (cfg : Config D) (nextOrderId : Nat) (symbol : UInt64) (st : SymbolState)
    (bidPx askPx : Int) (tsNs : UInt64) : SymbolState × Nat × List RouterCall :=
  ({ st with
      bid := ⟨nextOrderId, bidPx, true⟩
      ask := ⟨nextOrderId + 1, askPx, true⟩
      lastRequoteTs := tsNs },
    nextOrderId + 2,
    st.bid.cancel tsNs ++ st.ask.cancel tsNs ++
      [.submit symbol .buy bidPx cfg.quoteSize tsNs nextOrderId,
        .submit symbol .sell askPx cfg.quoteSize tsNs (nextOrderId + 1)])

def onFeature (s : MarketMakingStrategy D) (fv : FeatureVector D) :
    MarketMakingStrategy D × List RouterCall :=
  let st := s.bySymbol.state fv.symbolU64
  let center := centerTicks s.cfg st fv
  if refreshes s.cfg st fv then
    let (requoted, nextOrderId, calls) := requote s.cfg s.nextOrderId fv.symbolU64 st
      (center - s.cfg.halfSpreadTicks) (center + s.cfg.halfSpreadTicks) fv.exchangeTsNs
    ({ s with
        bySymbol := s.bySymbol.set fv.symbolU64
          { requoted with lastCenter := center, hasCenter := true }
        nextOrderId := nextOrderId }, calls)
  else ({ s with bySymbol := s.bySymbol.set fv.symbolU64 st }, [])

def SideOrder.isFilledBy (order : SideOrder) (fill : Fill) : Bool :=
  order.active && order.orderId == fill.orderId

/-- What a fill leaves of a quote. -/
def SideOrder.afterFill (order : SideOrder) (fill : Fill) : SideOrder :=
  if fill.isPartial = false ∧ order.isFilledBy fill then {} else order

def applyFill (st : SymbolState) (fill : Fill) : SymbolState :=
  { st with
    inventory := match fill.side with
      | .buy => st.inventory + fill.qty
      | .sell => st.inventory - fill.qty
    bid := st.bid.afterFill fill
    ask := st.ask.afterFill fill
    hasCenter := false }

/-- A fill goes to the first symbol that has its order for an active quote. -/
def onFill (s : MarketMakingStrategy D) (fill : Fill) : MarketMakingStrategy D :=
  match s.bySymbol.keys.find? (fun symbol =>
    let st := s.bySymbol.state symbol
    st.bid.isFilledBy fill || st.ask.isFilledBy fill) with
  | none => s
  | some symbol =>
    { s with bySymbol := s.bySymbol.set symbol (applyFill (s.bySymbol.state symbol) fill) }

/-- The fill names an active quote of the symbol. -/
def SymbolState.Holds (st : SymbolState) (fill : Fill) : Prop :=
  st.bid.isFilledBy fill = true ∨ st.ask.isFilledBy fill = true

instance (st : SymbolState) (fill : Fill) : Decidable (st.Holds fill) :=
  inferInstanceAs (Decidable (_ ∨ _))

/-- The state of a symbol after a requote. -/
def requotedState (cfg : Config D) (nextOrderId : Nat) (st : SymbolState) (fv : FeatureVector D) :
    SymbolState where
  inventory := st.inventory
  bid := ⟨nextOrderId, centerTicks cfg st fv - cfg.halfSpreadTicks, true⟩
  ask := ⟨nextOrderId + 1, centerTicks cfg st fv + cfg.halfSpreadTicks, true⟩
  lastCenter := centerTicks cfg st fv
  hasCenter := true
  lastRequoteTs := fv.exchangeTsNs

variable {s : MarketMakingStrategy D} {fv : FeatureVector D} {fill : Fill} {symbol : UInt64}

theorem onFeature_quiet (quiet : refreshes s.cfg (s.bySymbol.state fv.symbolU64) fv = false) :
    (s.onFeature fv).2 = [] ∧ (s.onFeature fv).1.bySymbol.state = s.bySymbol.state ∧
      (s.onFeature fv).1.nextOrderId = s.nextOrderId := by
  simp only [onFeature, quiet, Bool.false_eq_true, if_false, true_and, and_true]
  exact Function.update_eq_self fv.symbolU64 s.bySymbol.state

theorem onFeature_requotes (moves : refreshes s.cfg (s.bySymbol.state fv.symbolU64) fv = true) :
    let st := s.bySymbol.state fv.symbolU64
    let quoted := requotedState s.cfg s.nextOrderId st fv
    (s.onFeature fv).2 = st.bid.cancel fv.exchangeTsNs ++ st.ask.cancel fv.exchangeTsNs ++
        [.submit fv.symbolU64 .buy quoted.bid.price s.cfg.quoteSize fv.exchangeTsNs s.nextOrderId,
          .submit fv.symbolU64 .sell quoted.ask.price s.cfg.quoteSize fv.exchangeTsNs
            (s.nextOrderId + 1)] ∧
      (s.onFeature fv).1.bySymbol.state =
        Function.update s.bySymbol.state fv.symbolU64 quoted ∧
      (s.onFeature fv).1.nextOrderId = s.nextOrderId + 2 := by
  simp only [onFeature, moves, if_true]
  exact ⟨rfl, rfl, rfl⟩

@[simp] theorem onFeature_cfg : (s.onFeature fv).1.cfg = s.cfg := by
  simp only [onFeature]
  split <;> rfl

@[simp] theorem onFill_cfg : (s.onFill fill).cfg = s.cfg := by
  simp only [onFill]
  split <;> rfl

@[simp] theorem onFill_nextOrderId : (s.onFill fill).nextOrderId = s.nextOrderId := by
  simp only [onFill]
  split <;> rfl

theorem quote_afterFill (st : SymbolState) (fill : Fill) (side : OrderSide) :
    (applyFill st fill).quote side = (st.quote side).afterFill fill := by
  cases side <;> rfl

/-- A fill keeps or drops a quote. -/
theorem quote_applyFill {st : SymbolState} {side : OrderSide}
    (active : ((applyFill st fill).quote side).active = true) :
    (applyFill st fill).quote side = st.quote side := by
  rw [quote_afterFill, SideOrder.afterFill] at active ⊢
  split at active
  · cases active
  · next open_ => rw [if_neg open_]

/-- A fill that no symbol holds changes nothing. -/
theorem onFill_unheld (unheld : ∀ k, ¬ (s.bySymbol.state k).Holds fill) : s.onFill fill = s := by
  simp only [onFill]
  split
  · rfl
  · next k found =>
    have holds := List.find?_some found
    rw [Bool.or_eq_true] at holds
    exact absurd holds (unheld k)

/-- A fill that only one symbol holds goes there. -/
theorem onFill_held (holds : (s.bySymbol.state symbol).Holds fill)
    (only : ∀ k, (s.bySymbol.state k).Holds fill → k = symbol) :
    (s.onFill fill).bySymbol.state =
      Function.update s.bySymbol.state symbol (applyFill (s.bySymbol.state symbol) fill) := by
  have known : symbol ∈ s.bySymbol.keys := by
    by_contra absent
    rw [s.bySymbol.untouched symbol absent] at holds
    exact absurd holds (by simp [SymbolState.Holds, SideOrder.isFilledBy])
  simp only [onFill]
  split
  · next missing =>
    have unheld := List.find?_eq_none.mp missing symbol known
    rw [Bool.or_eq_true] at unheld
    exact absurd holds unheld
  · next k found =>
    have held := List.find?_some found
    rw [Bool.or_eq_true] at held
    obtain rfl := only k held
    rfl

end MarketMakingStrategy

end FeedHandler
