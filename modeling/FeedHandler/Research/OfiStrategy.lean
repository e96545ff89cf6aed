import FeedHandler.Core.Binary64
import FeedHandler.Lib.StateTable
import FeedHandler.Phase3.OrderBookEngine
import FeedHandler.Research.StrategyEngine

/-! The order flow imbalance strategy. It keeps its own order book, quotes around the middle
of the book, and leans towards one side when the signal is strong. -/
namespace FeedHandler

namespace OfiSignal

structure Config where
  maxEvents : Nat := 128
  maxWindowNs : UInt64 := 0
  deriving DecidableEq, Repr

structure Entry (D : Type*) where
  tsNs : UInt64
  v : D

end OfiSignal

structure OfiSignal (D : Type*) [Binary64 D] where
  cfg : OfiSignal.Config := {}
  window : List (OfiSignal.Entry D) := []
  sum : D := Binary64.ofNat 0
  hasBid : Bool := false
  hasAsk : Bool := false
  bidPx : UInt32 := 0
  bidQty : UInt32 := 0
  askPx : UInt32 := 0
  askQty : UInt32 := 0

namespace OfiSignal

variable {D : Type*} [Binary64 D]

open Binary64 (ofNat)

/-- Drop the entries that left the time window. -/
def pruneOld (maxWindowNs tsNs : UInt64) : List (Entry D) → D → List (Entry D) × D
  | [], sum => ([], sum)
  | entry :: rest, sum =>
    if entry.tsNs + maxWindowNs < tsNs then pruneOld maxWindowNs tsNs rest (sum - entry.v)
    else (entry :: rest, sum)

/-- Drop entries down to the number that is kept. -/
def pruneMany (maxEvents : Nat) : List (Entry D) → D → List (Entry D) × D
  | [], sum => ([], sum)
  | entry :: rest, sum =>
    if (entry :: rest).length > maxEvents then pruneMany maxEvents rest (sum - entry.v)
    else (entry :: rest, sum)

def prune (s : OfiSignal D) (tsNs : UInt64) : OfiSignal D :=
  let recent := if s.cfg.maxWindowNs > 0 then pruneOld s.cfg.maxWindowNs tsNs s.window s.sum
    else (s.window, s.sum)
  let kept := if s.cfg.maxEvents > 0 then pruneMany s.cfg.maxEvents recent.1 recent.2 else recent
  { s with window := kept.1, sum := kept.2 }

/-- What an update of the bid adds to the signal. -/
def bidFlow (s : OfiSignal D) (ev : BookEvent) : D :=
  if s.hasBid = false then ofNat ev.qty.toNat
  else if ev.price > s.bidPx then ofNat ev.qty.toNat
  else if ev.price = s.bidPx then ofNat ev.qty.toNat - ofNat s.bidQty.toNat
  else -ofNat s.bidQty.toNat

/-- What an update of the ask adds to the signal. -/
def askFlow (s : OfiSignal D) (ev : BookEvent) : D :=
  if s.hasAsk = false then -ofNat ev.qty.toNat
  else if ev.price > s.askPx then -ofNat ev.qty.toNat
  else if ev.price = s.askPx then -ofNat ev.qty.toNat + ofNat s.askQty.toNat
  else ofNat s.askQty.toNat

def push (s : OfiSignal D) (ev : BookEvent) (fi : D) : OfiSignal D :=
  ({ s with window := s.window ++ [⟨ev.exchangeTsNs, fi⟩], sum := s.sum + fi } : OfiSignal D).prune
    ev.exchangeTsNs

def update (s : OfiSignal D) (ev : BookEvent) : OfiSignal D :=
  if ev.side = .buy ∧ ev.price > 0 then
    ({ s with hasBid := true, bidPx := ev.price, bidQty := ev.qty } : OfiSignal D).push ev
      (s.bidFlow ev)
  else if ev.side = .sell ∧ ev.price > 0 then
    ({ s with hasAsk := true, askPx := ev.price, askQty := ev.qty } : OfiSignal D).push ev
      (s.askFlow ev)
  else s.push ev (ofNat 0)

def value (s : OfiSignal D) : D := s.sum

end OfiSignal

namespace OfiStrategy

structure Config (D : Type*) [Binary64 D] where
  signal : OfiSignal.Config := {}
  quoteSize : Nat := 10
  halfSpreadTicks : Int := 1
  maxPosition : Int := 200
  threshold : D := Binary64.ofNat 100
  aggressiveFlattenOffsetTicks : Int := 0
  requoteCooldownEvents : Nat := 0

structure State (D : Type*) [Binary64 D] where
  signal : OfiSignal D := {}
  inventory : Int := 0
  bidOrderId : Nat := 0
  askOrderId : Nat := 0
  lastBidQuote : Int := 0
  lastAskQuote : Int := 0
  eventsSinceQuote : Nat := 0
  hasLastQuote : Bool := false

end OfiStrategy

structure OfiStrategy (D : Type*) [Binary64 D] (layout : ProbeLayout UInt64) where
  cfg : OfiStrategy.Config D := {}
  bySymbol : StateTable UInt64 ({} : OfiStrategy.State D) := .empty
  bookEngine : OrderBookEngine layout := .create layout
  nextOrderId : Nat := 1

namespace OfiStrategy

variable {D : Type*} [Binary64 D] {layout : ProbeLayout UInt64}

def cancelIfActive (symbol : UInt64) (orderId : Nat) (side : OrderSide) (price : Int)
    (tsNs : UInt64) : List OrderIntent :=
  if orderId = 0 then [] else [⟨.cancel, symbol, side, price, 0, tsNs, orderId⟩]

/-- The id of the order, which is zero if there is none, the next id, and the intent. -/
def submit (nextOrderId : Nat) (symbol : UInt64) (side : OrderSide) (price : Int) (qty : Nat)
    (tsNs : UInt64) : Nat × Nat × List OrderIntent :=
  if qty = 0 then (0, nextOrderId, [])
  else (nextOrderId, nextOrderId + 1, [⟨.submit, symbol, side, price, qty, tsNs, nextOrderId⟩])

/-- The centre of the quotes, which a strong signal moves to one side of the book. -/
def centerOf (cfg : Config D) (ofi : D) (bestBid bestAsk : Int) : Int :=
  let mid := (bestBid + bestAsk).tdiv 2
  if cfg.threshold < ofi then max mid bestAsk
  else if ofi < -cfg.threshold then min mid bestBid
  else mid

/-- The quotes stand: they are where they should be, or were placed too few events ago. -/
def stands (cfg : Config D) (st : State D) (bidQuote askQuote : Int) : Bool :=
  (st.hasLastQuote && st.bidOrderId != 0 && st.askOrderId != 0 &&
      st.lastBidQuote == bidQuote && st.lastAskQuote == askQuote) ||
    (cfg.requoteCooldownEvents > 0 && st.bidOrderId != 0 && st.askOrderId != 0 &&
      st.eventsSinceQuote < cfg.requoteCooldownEvents)

/-- Cancel both quotes, and quote anew: one side at the limit of the position, else both. -/
def requote (cfg : Config D) (nextOrderId : Nat) (symbol : UInt64) (st : State D)
    (bestBid bestAsk bidQuote askQuote : Int) (tsNs : UInt64) :
    State D × Nat × List OrderIntent :=
  let cancels := cancelIfActive symbol st.bidOrderId .buy st.lastBidQuote tsNs ++
    cancelIfActive symbol st.askOrderId .sell st.lastAskQuote tsNs
  let quoted : State D :=
    { st with bidOrderId := 0, askOrderId := 0, hasLastQuote := true, eventsSinceQuote := 0 }
  if st.inventory ≥ cfg.maxPosition then
    let px := bestBid - cfg.aggressiveFlattenOffsetTicks
    let (askOrderId, next, submits) := submit nextOrderId symbol .sell px cfg.quoteSize tsNs
    ({ quoted with askOrderId := askOrderId, lastAskQuote := px }, next, cancels ++ submits)
  else if st.inventory ≤ -cfg.maxPosition then
    let px := bestAsk + cfg.aggressiveFlattenOffsetTicks
    let (bidOrderId, next, submits) := submit nextOrderId symbol .buy px cfg.quoteSize tsNs
    ({ quoted with bidOrderId := bidOrderId, lastBidQuote := px }, next, cancels ++ submits)
  else
    let (bidOrderId, afterBid, bids) := submit nextOrderId symbol .buy bidQuote cfg.quoteSize tsNs
    let (askOrderId, afterAsk, asks) := submit afterBid symbol .sell askQuote cfg.quoteSize tsNs
    ({ quoted with
        bidOrderId := bidOrderId
        askOrderId := askOrderId
        lastBidQuote := bidQuote
        lastAskQuote := askQuote }, afterAsk, cancels ++ bids ++ asks)

/-- The state of the symbol once the signal has seen the event; an unused state takes the
configuration of the signal first. -/
def observe (cfg : Config D) (st : State D) (ev : BookEvent) : State D :=
  let unused := Binary64.equals st.signal.value (Binary64.ofNat 0) ∧ st.inventory = 0 ∧
    st.bidOrderId = 0 ∧ st.askOrderId = 0 ∧ st.hasLastQuote = false
  let signal : OfiSignal D := if unused then { cfg := cfg.signal } else st.signal
  { st with signal := signal.update ev }

def onEvent (s : OfiStrategy D layout) (ev : BookEvent) :
    OfiStrategy D layout × List OrderIntent :=
  let symbol := ev.symbol.asU64
  let books := (s.bookEngine.onEvent ev).1
  let seen := observe s.cfg (s.bySymbol.state symbol) ev
  let top := books.topOfBook ev.venue symbol
  if !top.hasBid || !top.hasAsk then
    ({ s with bookEngine := books, bySymbol := s.bySymbol.set symbol seen }, [])
  else
    let st := { seen with eventsSinceQuote := seen.eventsSinceQuote + 1 }
    let bestBid : Int := top.bidPrice.toNat
    let bestAsk : Int := top.askPrice.toNat
    let center := centerOf s.cfg st.signal.value bestBid bestAsk
    let bidQuote := center - s.cfg.halfSpreadTicks
    let askQuote := center + s.cfg.halfSpreadTicks
    if stands s.cfg st bidQuote askQuote then
      ({ s with bookEngine := books, bySymbol := s.bySymbol.set symbol st }, [])
    else
      let (quoted, next, intents) := requote s.cfg s.nextOrderId symbol st bestBid bestAsk bidQuote
        askQuote ev.exchangeTsNs
      ({ s with
          bookEngine := books
          bySymbol := s.bySymbol.set symbol quoted
          nextOrderId := next }, intents)

def applyFill (st : State D) (fill : Fill) : State D :=
  { st with
    inventory := match fill.side with
      | .buy => st.inventory + fill.qty
      | .sell => st.inventory - fill.qty
    bidOrderId :=
      if fill.isPartial = false ∧ st.bidOrderId = fill.orderId then 0 else st.bidOrderId
    askOrderId :=
      if fill.isPartial = false ∧ st.askOrderId = fill.orderId then 0 else st.askOrderId }

def onFill (s : OfiStrategy D layout) (symbol : UInt64) (fill : Fill) : OfiStrategy D layout :=
  if symbol ∈ s.bySymbol.keys then
    { s with bySymbol := s.bySymbol.set symbol (applyFill (s.bySymbol.state symbol) fill) }
  else s

end OfiStrategy

end FeedHandler
