import FeedHandler.Phase3.FeaturePipeline
import FeedHandler.Phase4.PnlAccountant
import FeedHandler.Phase4.QuoteMirror
import FeedHandler.Research.OfiStrategy
import FeedHandler.Research.StrategyAgreement

/-! The experiment runner. The market-making strategy quotes on features, the order flow
strategy on events, and the intents of the chosen one go to the simulated engine. The hash
of the output and the series for the risk metrics are left out. A letter of the tape is an
event with the fill budget that the engine gives it. -/
namespace FeedHandler

/-- `ExperimentConfig::StrategyKind`. -/
inductive StrategyKind where
  | marketMaking | ofi
  deriving DecidableEq, Repr

structure ExperimentConfig (D : Type*) [Binary64 D] where
  strategyKind : StrategyKind := .marketMaking
  strategy : StrategyEngine.Config D := {}
  ofiStrategy : OfiStrategy.Config D := {}
  pnl : PnlAccountant.Config := {}

structure SimulationClock where
  nowNs : UInt64 := 0
  eventsSeen : Nat := 0

/-- The clock after an event, and whether it takes the event. -/
def SimulationClock.onEvent (clock : SimulationClock) (ev : BookEvent) : SimulationClock × Bool :=
  if ev.exchangeTsNs < clock.nowNs then (clock, false)
  else (⟨ev.exchangeTsNs, clock.eventsSeen + 1⟩, true)

structure ExperimentState (D : Type*) [Binary64 D] (layout : ProbeLayout UInt64) where
  clock : SimulationClock := {}
  engine : SimMatchingEngine := {}
  pnl : PnlAccountant := {}
  strategy : StrategyEngine D := {}
  ofiStrategy : OfiStrategy D layout := {}
  strategyKind : StrategyKind := .marketMaking
  bridge : FeatureBridge D layout := {}
  orderToSymbol : Nat → Option UInt64 := fun _ => none
  orderTaker : Nat → Option Bool := fun _ => none
  bySymbolTop : UInt64 → Option (UInt32 × UInt32) := fun _ => none
  events : Nat := 0
  clockRejects : Nat := 0
  submittedOrders : Nat := 0
  cancelIntents : Nat := 0
  fills : Nat := 0

namespace ExperimentState

open SimMatchingEngine (SideSorts)

variable {D : Type*} [Binary64 D] {layout : ProbeLayout UInt64}

def create (cfg : ExperimentConfig D) : ExperimentState D layout where
  pnl := { cfg := cfg.pnl }
  strategy := { cfg := cfg.strategy }
  ofiStrategy := { cfg := cfg.ofiStrategy }
  strategyKind := cfg.strategyKind

/-- Whether an order crosses the quote that was published last for its symbol. -/
def crosses (x : ExperimentState D layout) (intent : OrderIntent) : Bool :=
  match x.bySymbolTop intent.symbolU64 with
  | none => false
  | some (bid, ask) =>
    (intent.side == .buy && ask > 0 && intent.price ≥ (ask.toNat : Int)) ||
      (intent.side == .sell && bid > 0 && intent.price ≤ (bid.toNat : Int))

def onIntent (sorts : SideSorts) (x : ExperimentState D layout) (intent : OrderIntent) :
    ExperimentState D layout :=
  match intent.action with
  | .cancel =>
    { x with
      cancelIntents := x.cancelIntents + 1
      engine := x.engine.cancel intent.orderId
      orderToSymbol := Function.update x.orderToSymbol intent.orderId none }
  | .submit =>
    { x with
      submittedOrders := x.submittedOrders + 1
      orderToSymbol := Function.update x.orderToSymbol intent.orderId (some intent.symbolU64)
      orderTaker := Function.update x.orderTaker intent.orderId (some (x.crosses intent))
      engine :=
        SimMatchingEngine.submit sorts (x.engine.bindOrderSymbol intent.orderId intent.symbolU64)
          intent.side intent.price intent.qty intent.orderId intent.tsNs
      pnl := x.pnl.onOrderSubmitted }

def tryPublish (sorts : SideSorts) (x : ExperimentState D layout) (fv : FeatureVector D) :
    ExperimentState D layout :=
  let marked := { x with
    pnl := x.pnl.onFeature fv
    bySymbolTop :=
      Function.update x.bySymbolTop fv.symbolU64 (some (fv.nbboBidPrice, fv.nbboAskPrice)) }
  match x.strategyKind with
  | .marketMaking =>
    let quoted := x.strategy.onFeature fv
    quoted.2.foldl (onIntent sorts) { marked with strategy := quoted.1 }
  | .ofi => marked

def onMergedEvent (sorts : SideSorts) (x : ExperimentState D layout) (ev : BookEvent) :
    ExperimentState D layout :=
  let merged := x.bridge.onMergedEvent ev
  match merged.2 with
  | none => { x with bridge := merged.1 }
  | some fv => tryPublish sorts { x with bridge := merged.1 } fv

/-- The event for the order flow strategy, if it is the chosen one. -/
def onOfiEvent (sorts : SideSorts) (x : ExperimentState D layout) (ev : BookEvent) :
    ExperimentState D layout :=
  match x.strategyKind with
  | .marketMaking => x
  | .ofi =>
    let quoted := x.ofiStrategy.onEvent ev
    quoted.2.foldl (onIntent sorts) { x with ofiStrategy := quoted.1 }

/-- The fill callback of the engine. -/
def onFill (x : ExperimentState D layout) (fill : Fill) : ExperimentState D layout :=
  match x.orderToSymbol fill.orderId with
  | none => x
  | some symbol =>
    { x with
      pnl := x.pnl.onFill symbol fill ((x.orderTaker fill.orderId).getD false)
      strategy := x.strategy.onFill symbol fill
      ofiStrategy := x.ofiStrategy.onFill symbol fill
      fills := x.fills + 1
      orderToSymbol :=
        if fill.isPartial = false then Function.update x.orderToSymbol fill.orderId none
        else x.orderToSymbol }

def onMarketEvent (x : ExperimentState D layout) (ev : BookEvent) (budget : Nat) :
    ExperimentState D layout :=
  let matched := x.engine.onMarketEvent ev budget
  matched.2.foldl onFill { x with engine := matched.1 }

/-- What the strategies do with an event that the clock takes. -/
def quoted (sorts : SideSorts) (x : ExperimentState D layout) (ev : BookEvent) :
    ExperimentState D layout :=
  (x.onMergedEvent sorts ev).onOfiEvent sorts ev

def onEvent (sorts : SideSorts) (x : ExperimentState D layout) (letter : BookEvent × Nat) :
    ExperimentState D layout :=
  let ticked := x.clock.onEvent letter.1
  if ticked.2 = false then
    { x with events := x.events + 1, clockRejects := x.clockRejects + 1 }
  else
    let matched := (({ x with events := x.events + 1, clock := ticked.1 } :
      ExperimentState D layout).quoted sorts letter.1).onMarketEvent letter.1 letter.2
    { matched with pnl := matched.pnl.onTickEnd letter.1.exchangeTsNs }

/-- The state of the runner after a tape. -/
def runOnEvents (sorts : SideSorts) (cfg : ExperimentConfig D) (events : List (BookEvent × Nat)) :
    ExperimentState D layout := events.foldl (onEvent sorts) (create cfg)

end ExperimentState

end FeedHandler
