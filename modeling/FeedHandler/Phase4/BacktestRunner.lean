import FeedHandler.Phase3.FeaturePipeline
import FeedHandler.Phase4.StrategyQuotes

/-! The backtest: features drive the strategy and the accounts, the router carries the calls
of the strategy to the simulated engine, and the fills of the engine go to both. A letter of
the tape is an event with the fill budget that the engine gives it. -/
namespace FeedHandler

/-- The report leaves out the Sharpe ratio. -/
structure BacktestReport where
  realizedPnl : ℚ := 0
  unrealizedPnl : ℚ := 0
  totalPnl : ℚ := 0
  fillRatio : ℚ := 0
  maxDrawdown : ℚ := 0
  turnover : ℚ := 0
  fills : Nat := 0
  submittedOrders : Nat := 0

structure BacktestRunner (D : Type*) [Binary64 D] (layout : ProbeLayout UInt64) where
  engine : SimMatchingEngine := {}
  pnl : PnlAccountant := {}
  orderToSymbol : Nat → Option UInt64 := fun _ => none
  strategy : MarketMakingStrategy D := {}
  bridge : FeatureBridge D layout := {}

namespace BacktestRunner

open SimMatchingEngine (SideSorts)

variable {D : Type*} [Binary64 D] {layout : ProbeLayout UInt64}

def create (strategyCfg : MarketMakingStrategy.Config D) (pnlCfg : PnlAccountant.Config) :
    BacktestRunner D layout where
  pnl := { cfg := pnlCfg }
  strategy := { cfg := strategyCfg }

/-- `EngineRouter`. -/
def route (sorts : SideSorts) (r : BacktestRunner D layout) : RouterCall → BacktestRunner D layout
  | .submit symbol side price qty tsNs orderId =>
    { r with
      orderToSymbol := Function.update r.orderToSymbol orderId (some symbol)
      pnl := r.pnl.onOrderSubmitted
      engine :=
        SimMatchingEngine.submit sorts (r.engine.bindOrderSymbol orderId symbol) side price qty
          orderId tsNs }
  | .cancel orderId _ =>
    { r with
      engine := r.engine.cancel orderId
      orderToSymbol := Function.update r.orderToSymbol orderId none }

/-- `StrategyPublisher`. -/
def tryPublish (sorts : SideSorts) (r : BacktestRunner D layout) (fv : FeatureVector D) :
    BacktestRunner D layout :=
  let quoted := r.strategy.onFeature fv
  quoted.2.foldl (route sorts) { r with pnl := r.pnl.onFeature fv, strategy := quoted.1 }

def onMergedEvent (sorts : SideSorts) (r : BacktestRunner D layout) (ev : BookEvent) :
    BacktestRunner D layout :=
  let merged := r.bridge.onMergedEvent ev
  match merged.2 with
  | none => { r with bridge := merged.1 }
  | some fv => tryPublish sorts { r with bridge := merged.1 } fv

/-- The fill callback of the engine. -/
def onFill (r : BacktestRunner D layout) (fill : Fill) : BacktestRunner D layout :=
  match r.orderToSymbol fill.orderId with
  | none => r
  | some symbol =>
    { r with
      pnl := r.pnl.onFill symbol fill false
      strategy := r.strategy.onFill fill
      orderToSymbol :=
        if fill.isPartial = false then Function.update r.orderToSymbol fill.orderId none
        else r.orderToSymbol }

def onMarketEvent (r : BacktestRunner D layout) (ev : BookEvent) (budget : Nat) :
    BacktestRunner D layout :=
  let matched := r.engine.onMarketEvent ev budget
  matched.2.foldl onFill { r with engine := matched.1 }

/-- One turn of the loop in `run`; the tick end of the strategy does nothing. -/
def step (sorts : SideSorts) (r : BacktestRunner D layout) (letter : BookEvent × Nat) :
    BacktestRunner D layout :=
  let matched := (r.onMergedEvent sorts letter.1).onMarketEvent letter.1 letter.2
  { matched with pnl := matched.pnl.onTickEnd letter.1.exchangeTsNs }

def run (sorts : SideSorts) (r : BacktestRunner D layout) (events : List (BookEvent × Nat)) :
    BacktestReport :=
  let report := (events.foldl (step sorts) r).pnl.finalize
  { realizedPnl := report.totalRealizedPnl
    unrealizedPnl := report.totalUnrealizedPnl
    totalPnl := report.totalRealizedPnl + report.totalUnrealizedPnl
    fillRatio := report.fillRatio
    maxDrawdown := report.maxDrawdown
    turnover := report.turnover
    fills := report.fills
    submittedOrders := report.submittedOrders }

/-- The engine and the map of the runner. -/
def desk (r : BacktestRunner D layout) : OrderDesk := ⟨r.engine, r.orderToSymbol⟩

variable {r : BacktestRunner D layout} {sorts : SideSorts} {fv : FeatureVector D}

/-- The router works on the desk and counts submissions. -/
theorem foldl_route (sorts : SideSorts) (r : BacktestRunner D layout) (calls : List RouterCall) :
    let routed := calls.foldl (route sorts) r
    routed.desk = calls.foldl (OrderDesk.route sorts) r.desk ∧ routed.strategy = r.strategy ∧
      routed.bridge = r.bridge ∧ routed.pnl.bySymbol = r.pnl.bySymbol := by
  induction calls generalizing r with
  | nil => exact ⟨rfl, rfl, rfl, rfl⟩
  | cons call rest ih =>
    obtain ⟨desk, strategy, bridge, pnl⟩ := ih (r.route sorts call)
    have first : (r.route sorts call).desk = r.desk.route sorts call ∧
        (r.route sorts call).strategy = r.strategy ∧ (r.route sorts call).bridge = r.bridge ∧
        (r.route sorts call).pnl.bySymbol = r.pnl.bySymbol := by
      cases call <;> exact ⟨rfl, rfl, rfl, rfl⟩
    rw [first.1] at desk
    rw [first.2.1] at strategy
    rw [first.2.2.1] at bridge
    rw [first.2.2.2] at pnl
    exact ⟨desk, strategy, bridge, pnl⟩

end BacktestRunner

end FeedHandler
