import FeedHandler.Lib.Run
import FeedHandler.Lib.StateTable
import FeedHandler.Phase3.FeaturePipeline
import FeedHandler.Phase4.SimMatchingEngine

/-! The accounts of a simulation: for each symbol the position, its average cost and the
cash, and from them the equity. Amounts are exact rationals. The report leaves out the
Sharpe ratio, which takes a square root. -/
namespace FeedHandler

/-- Positive for a buy, negative for a sell. -/
def Fill.signedQty (fill : Fill) : Int :=
  match fill.side with
  | .buy => fill.qty
  | .sell => -fill.qty

namespace PnlAccountant

structure Config where
  sharpeBucketNs : UInt64 := 1000000000
  makerRebatePerShare : ℚ := 2 / 1000
  takerFeePerShare : ℚ := 3 / 1000

structure SymbolState where
  position : Int := 0
  cash : ℚ := 0
  avgCost : ℚ := 0
  realizedPnl : ℚ := 0
  unrealizedPnl : ℚ := 0
  fillCount : Nat := 0
  grossVolume : ℚ := 0
  lastMid : ℚ := 0
  hasMid : Bool := false
  deriving DecidableEq, Repr

structure Report where
  totalRealizedPnl : ℚ := 0
  totalUnrealizedPnl : ℚ := 0
  totalEquity : ℚ := 0
  maxDrawdown : ℚ := 0
  fillRatio : ℚ := 0
  turnover : ℚ := 0
  cumulativeFees : ℚ := 0
  cumulativeRebates : ℚ := 0
  fills : Nat := 0
  submittedOrders : Nat := 0

end PnlAccountant

structure PnlAccountant where
  cfg : PnlAccountant.Config := {}
  bySymbol : StateTable UInt64 ({} : PnlAccountant.SymbolState) := .empty
  submittedOrders : Nat := 0
  totalFills : Nat := 0
  peakEquity : ℚ := 0
  maxDrawdown : ℚ := 0
  currentBucket : UInt64 := 0
  hasBucket : Bool := false
  lastBucketEquity : ℚ := 0
  sumReturns : ℚ := 0
  sumSqReturns : ℚ := 0
  nReturns : Nat := 0
  cumulativeFees : ℚ := 0
  cumulativeRebates : ℚ := 0

namespace PnlAccountant

def onOrderSubmitted (a : PnlAccountant) : PnlAccountant :=
  { a with submittedOrders := a.submittedOrders + 1 }

/-- The fill opens a position or adds to it. -/
def Extends (position signedQty : Int) : Prop :=
  position = 0 ∨ (position > 0 ↔ signedQty > 0)

instance (position signedQty : Int) : Decidable (Extends position signedQty) :=
  inferInstanceAs (Decidable (_ ∨ _))

/-- The position, its average cost and the realized profit after a fill. -/
def applyTrade (st : SymbolState) (fill : Fill) : SymbolState :=
  let px : ℚ := fill.price
  let qty : ℚ := fill.qty
  let position := st.position + fill.signedQty
  if Extends st.position fill.signedQty then
    let notional := st.avgCost * st.position.natAbs + px * qty
    { st with
      position := position
      avgCost := if position = 0 then 0 else notional / position.natAbs }
  else
    let closeQty := min st.position.natAbs fill.signedQty.natAbs
    let pnl := if st.position > 0 then (px - st.avgCost) * closeQty
      else (st.avgCost - px) * closeQty
    { st with
      realizedPnl := st.realizedPnl + pnl
      position := position
      avgCost :=
        if position = 0 then 0
        else if (position > 0 ↔ fill.signedQty > 0) ∧ position.natAbs > closeQty then px
        else st.avgCost }

/-- The state of a symbol after a fill. -/
def applyFill (st : SymbolState) (fill : Fill) : SymbolState :=
  let px : ℚ := fill.price
  let qty : ℚ := fill.qty
  let traded := applyTrade st fill
  { traded with
    cash := st.cash + match fill.side with
      | .buy => -px * qty
      | .sell => px * qty
    grossVolume := st.grossVolume + px * qty
    fillCount := st.fillCount + 1 }

def onFill (a : PnlAccountant) (symbol : UInt64) (fill : Fill) (taker : Bool) : PnlAccountant :=
  { a with
    bySymbol := a.bySymbol.set symbol (applyFill (a.bySymbol.state symbol) fill)
    totalFills := a.totalFills + 1
    cumulativeFees :=
      if taker then a.cumulativeFees + a.cfg.takerFeePerShare * fill.qty else a.cumulativeFees
    cumulativeRebates :=
      if taker then a.cumulativeRebates
      else a.cumulativeRebates + a.cfg.makerRebatePerShare * fill.qty }

/-- The part of a feature vector that the accounts read. -/
def onFeature {D : Type*} (a : PnlAccountant) (fv : FeatureVector D) : PnlAccountant :=
  if fv.nbboBidPrice = 0 ∨ fv.nbboAskPrice = 0 then a
  else
    { a with
      bySymbol := a.bySymbol.set fv.symbolU64
        { a.bySymbol.state fv.symbolU64 with
          lastMid := 1 / 2 * (fv.nbboBidPrice.toNat + fv.nbboAskPrice.toNat)
          hasMid := true } }

def mark (st : SymbolState) : SymbolState :=
  { st with
    unrealizedPnl := if st.hasMid then (st.lastMid - st.avgCost) * st.position else 0 }

/-- The summand of the equity that is kept for drawdown, returns and report. -/
def SymbolState.equity (st : SymbolState) : ℚ := st.cash + st.realizedPnl + st.unrealizedPnl

/-- The accounts with every symbol marked, and the equity they add up to. -/
def markAll (a : PnlAccountant) : StateTable UInt64 ({} : SymbolState) × ℚ :=
  let marked := a.bySymbol.map mark
  (marked, marked.total SymbolState.equity)

def bucketOf (cfg : Config) (tsNs : UInt64) : UInt64 :=
  if cfg.sharpeBucketNs = 0 then 0 else tsNs / cfg.sharpeBucketNs

/-- The return of a bucket is taken when the next one begins. -/
def sampleReturn (a : PnlAccountant) (bucket : UInt64) (equity : ℚ) : PnlAccountant :=
  if a.hasBucket = false then
    { a with hasBucket := true, currentBucket := bucket, lastBucketEquity := equity }
  else if bucket ≠ a.currentBucket then
    let ret := equity - a.lastBucketEquity
    { a with
      sumReturns := a.sumReturns + ret
      sumSqReturns := a.sumSqReturns + ret * ret
      nReturns := a.nReturns + 1
      currentBucket := bucket
      lastBucketEquity := equity }
  else a

def onTickEnd (a : PnlAccountant) (tsNs : UInt64) : PnlAccountant :=
  let marked := a.markAll
  let peak := if marked.2 > a.peakEquity then marked.2 else a.peakEquity
  let drawdown := peak - marked.2
  sampleReturn
    { a with
      bySymbol := marked.1
      peakEquity := peak
      maxDrawdown := if drawdown > a.maxDrawdown then drawdown else a.maxDrawdown }
    (bucketOf a.cfg tsNs) marked.2

def finalize (a : PnlAccountant) : Report where
  totalRealizedPnl := a.bySymbol.total SymbolState.realizedPnl
  totalUnrealizedPnl := a.bySymbol.total SymbolState.unrealizedPnl
  fills := a.bySymbol.total SymbolState.fillCount
  turnover := a.bySymbol.total SymbolState.grossVolume
  totalEquity := a.bySymbol.total SymbolState.equity - a.cumulativeFees + a.cumulativeRebates
  maxDrawdown := a.maxDrawdown
  submittedOrders := a.submittedOrders
  fillRatio := if a.submittedOrders = 0 then 0 else a.totalFills / a.submittedOrders
  cumulativeFees := a.cumulativeFees
  cumulativeRebates := a.cumulativeRebates

end PnlAccountant

end FeedHandler
