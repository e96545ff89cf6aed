import FeedHandler.Core.Binary64
import FeedHandler.Phase3.NbboConsolidator

/-! Features of a symbol computed from its consolidated quote and its events. -/
namespace FeedHandler

structure FeatureVector (D : Type*) where
  symbolU64 : UInt64
  exchangeTsNs : UInt64
  ingestTsNs : UInt64
  nbboBidPrice : UInt32
  nbboBidQty : UInt32
  nbboAskPrice : UInt32
  nbboAskQty : UInt32
  microprice : D
  ofi : D
  queueAhead : D
  effectiveSpread : D
  kyleLambda : D
  vpin : D

theorem default_volume_pos : (0 : UInt32) < 10000 := by decide

/-- The loop over the buckets does not end at a bucket volume of zero, which is left out. -/
structure FeatureConfig where
  ofiWindowNs : UInt64 := 1000000000
  vpinBucketVolume : UInt32 := 10000
  vpinBucketCount : Nat := 32
  volume_pos : 0 < vpinBucketVolume := by exact default_volume_pos

structure OfiPoint (D : Type*) where
  ts : UInt64
  value : D

/-- The vectors of the state are lists: `ofiWindow` grows at its end, and the buckets are
the sixty-four slots of the array. -/
structure FeatureState (D : Type*) [Binary64 D] where
  lastBidPrice : UInt32 := 0
  lastBidQty : UInt32 := 0
  lastAskPrice : UInt32 := 0
  lastAskQty : UInt32 := 0
  ofiSum : D := Binary64.ofNat 0
  ofiWindow : List (OfiPoint D) := []
  ofiHead : Nat := 0
  effectiveSpreadEma : D := Binary64.ofNat 0
  hasEffectiveSpread : Bool := false
  lastMid : D := Binary64.ofNat 0
  hasMid : Bool := false
  regN : Nat := 0
  regSumX : D := Binary64.ofNat 0
  regSumY : D := Binary64.ofNat 0
  regSumXx : D := Binary64.ofNat 0
  regSumXy : D := Binary64.ofNat 0
  vpinBucketBuy : UInt32 := 0
  vpinBucketSell : UInt32 := 0
  vpinBuckets : Vector D 64 := Vector.replicate 64 (Binary64.ofNat 0)
  vpinHead : Nat := 0
  vpinSize : Nat := 0

/-- The pointer to the cached state is the key of that state in the map: the states of the
map are never removed, and a pointer to one stays valid. -/
structure FeaturePipeline (D : Type*) [Binary64 D] where
  cfg : FeatureConfig := {}
  bySymbol : UInt64 → Option (FeatureState D) := fun _ => none
  cachedSymbol : UInt64 := 0
  cachedState : Option UInt64 := none
  cachedValid : Bool := false

namespace FeaturePipeline

variable {D : Type*} [Binary64 D]

open Binary64 (ofNat ofRat fabs)

/-- The midpoint of the quote. -/
def midOf (nbbo : Nbbo) : D :=
  ofRat (1 / 2) * (ofNat nbbo.bidPrice.toNat + ofNat nbbo.askPrice.toNat)

def micropriceOf (nbbo : Nbbo) : D :=
  let bidP : D := ofNat nbbo.bidPrice.toNat
  let askP : D := ofNat nbbo.askPrice.toNat
  let bidQ : D := ofNat nbbo.bidQty.toNat
  let askQ : D := ofNat nbbo.askQty.toNat
  let denom := bidQ + askQ
  if ofNat 0 < denom then (askP * bidQ + bidP * askQ) / denom else midOf nbbo

/-- Whether a quote yields features at all. -/
def quoted (nbbo : Nbbo) : Bool :=
  nbbo.hasBid && nbbo.hasAsk && nbbo.bidPrice != 0 && nbbo.askPrice != 0

/-- The order flow imbalance that one update adds. -/
def deltaOfi (s : FeatureState D) (nbbo : Nbbo) : D :=
  let bidQ : D := ofNat nbbo.bidQty.toNat
  let askQ : D := ofNat nbbo.askQty.toNat
  let lastBidQ : D := ofNat s.lastBidQty.toNat
  let lastAskQ : D := ofNat s.lastAskQty.toNat
  let zero : D := ofNat 0
  if s.lastBidPrice ≠ 0 ∨ s.lastAskPrice ≠ 0 then
    let bid :=
      if nbbo.bidPrice > s.lastBidPrice then zero + bidQ
      else if nbbo.bidPrice < s.lastBidPrice then zero - lastBidQ
      else zero + (bidQ - lastBidQ)
    if nbbo.askPrice < s.lastAskPrice then bid - askQ
    else if nbbo.askPrice > s.lastAskPrice then bid + lastAskQ
    else bid - (askQ - lastAskQ)
  else zero

/-- Move the head past the points that left the window. -/
def expirePoints (cfg : FeatureConfig) (now : UInt64) :
    List (OfiPoint D) → D → Nat → D × Nat
  | [], sum, head => (sum, head)
  | point :: later, sum, head =>
    if now - point.ts > cfg.ofiWindowNs then
      expirePoints cfg now later (sum - point.value) (head + 1)
    else (sum, head)

def updateOfi (cfg : FeatureConfig) (s : FeatureState D) (nbbo : Nbbo) (ts : UInt64) :
    FeatureState D :=
  let delta := deltaOfi s nbbo
  let window := s.ofiWindow ++ [⟨ts, delta⟩]
  let expired := expirePoints cfg ts (window.drop s.ofiHead) (s.ofiSum + delta) s.ofiHead
  let compact := expired.2 > 4096 ∧ expired.2 * 2 > window.length
  { s with
    lastBidPrice := nbbo.bidPrice
    lastBidQty := nbbo.bidQty
    lastAskPrice := nbbo.askPrice
    lastAskQty := nbbo.askQty
    ofiSum := expired.1
    ofiWindow := if compact then window.drop expired.2 else window
    ofiHead := if compact then 0 else expired.2 }

def maxBuckets (cfg : FeatureConfig) : Nat := min cfg.vpinBucketCount 64

/-- Write a slot of the bucket array. -/
def setBucket (s : FeatureState D) (slot : Nat) (tox : D) : FeatureState D :=
  { s with vpinBuckets := s.vpinBuckets.setIfInBounds slot tox }

/-- One bucket is closed, and what is over goes into the next one. -/
def closeBucket (cfg : FeatureConfig) (s : FeatureState D) : FeatureState D :=
  let tox : D := fabs (ofNat s.vpinBucketBuy.toNat - ofNat s.vpinBucketSell.toNat) /
    ofNat cfg.vpinBucketVolume.toNat
  let stored : FeatureState D :=
    if s.vpinSize < maxBuckets cfg then
      { setBucket s ((s.vpinHead + s.vpinSize) % maxBuckets cfg) tox with
        vpinSize := s.vpinSize + 1 }
    else if maxBuckets cfg > 0 then
      { setBucket s s.vpinHead tox with vpinHead := (s.vpinHead + 1) % maxBuckets cfg }
    else s
  let excess := (s.vpinBucketBuy + s.vpinBucketSell) - cfg.vpinBucketVolume
  let buy := if s.vpinBucketBuy > excess then excess else 0
  { stored with
    vpinBucketBuy := buy
    vpinBucketSell := if s.vpinBucketSell > buy then excess - buy else 0 }

/-- Close buckets until the volume fits in one; the fuel bounds the number of buckets. -/
def closeBuckets (cfg : FeatureConfig) : Nat → FeatureState D → FeatureState D
  | 0, s => s
  | fuel + 1, s =>
    if s.vpinBucketBuy + s.vpinBucketSell ≥ cfg.vpinBucketVolume then
      closeBuckets cfg fuel (closeBucket cfg s)
    else s

/-- What a trade adds to the spread average, the regression and the buckets. -/
def updateTrade (cfg : FeatureConfig) (s : FeatureState D) (ev : BookEvent) (mid : D) :
    FeatureState D :=
  let eff : D := ofNat 2 * fabs (ofNat ev.price.toNat - mid)
  let sign : D := match ev.side with
    | .buy => ofNat 1
    | .sell => -ofNat 1
    | .unknown => ofNat 0
  let x : D := sign * ofNat ev.qty.toNat
  let y : D := if s.hasMid then mid - s.lastMid else ofNat 0
  let buy := if ofNat 0 < sign then s.vpinBucketBuy + ev.qty else s.vpinBucketBuy
  let sell := if ¬ ofNat 0 < sign ∧ sign < ofNat 0 then s.vpinBucketSell + ev.qty
    else s.vpinBucketSell
  closeBuckets cfg (buy + sell).toNat
    { s with
      effectiveSpreadEma :=
        if s.hasEffectiveSpread then ofRat (95 / 100) * s.effectiveSpreadEma + ofRat (5 / 100) * eff
        else eff
      hasEffectiveSpread := true
      regN := s.regN + 1
      regSumX := s.regSumX + x
      regSumY := s.regSumY + y
      regSumXx := s.regSumXx + x * x
      regSumXy := s.regSumXy + x * y
      vpinBucketBuy := buy
      vpinBucketSell := sell }

def lambdaOf (s : FeatureState D) : D :=
  let denom := ofNat s.regN * s.regSumXx - s.regSumX * s.regSumX
  if ofRat (1 / 10 ^ 12) < fabs denom then
    (ofNat s.regN * s.regSumXy - s.regSumX * s.regSumY) / denom
  else ofNat 0

def bucketAt (s : FeatureState D) (slot : Nat) : D := s.vpinBuckets.toList.getD slot (ofNat 0)

def vpinOf (cfg : FeatureConfig) (s : FeatureState D) : D :=
  if s.vpinSize > 0 then
    (List.range s.vpinSize).foldl
        (fun sum i => sum + bucketAt s ((s.vpinHead + i) % maxBuckets cfg)) (ofNat 0) /
      ofNat s.vpinSize
  else ofNat 0

/-- The state of a symbol after an event with a two-sided quote. -/
def updateState (cfg : FeatureConfig) (s : FeatureState D) (ev : BookEvent) (nbbo : Nbbo) :
    FeatureState D :=
  let moved := updateOfi cfg s nbbo ev.exchangeTsNs
  let traded := if ev.type = .trade ∨ ev.type = .crossTrade then
      updateTrade cfg moved ev (midOf nbbo) else moved
  { traded with lastMid := midOf nbbo, hasMid := true }

def featureOf (cfg : FeatureConfig) (s : FeatureState D) (ev : BookEvent) (nbbo : Nbbo)
    (queueAheadHint : D) : FeatureVector D where
  symbolU64 := ev.symbol.asU64
  exchangeTsNs := ev.exchangeTsNs
  ingestTsNs := ev.ingestTsNs
  nbboBidPrice := nbbo.bidPrice
  nbboBidQty := nbbo.bidQty
  nbboAskPrice := nbbo.askPrice
  nbboAskQty := nbbo.askQty
  microprice := micropriceOf nbbo
  ofi := s.ofiSum
  queueAhead := queueAheadHint
  effectiveSpread := s.effectiveSpreadEma
  kyleLambda := lambdaOf s
  vpin := vpinOf cfg s

/-- Enter a new symbol with an empty state, and cache its key. -/
def fetch (p : FeaturePipeline D) (symbol : UInt64) : FeaturePipeline D :=
  { p with
    bySymbol := match p.bySymbol symbol with
      | none => Function.update p.bySymbol symbol (some {})
      | some _ => p.bySymbol
    cachedSymbol := symbol
    cachedState := some symbol
    cachedValid := true }

/-- The pipeline and the key of the state to update. -/
def stateFor (p : FeaturePipeline D) (symbol : UInt64) : FeaturePipeline D × UInt64 :=
  match p.cachedState with
  | some entry =>
    if p.cachedValid = true ∧ p.cachedSymbol = symbol then (p, entry) else (p.fetch symbol, symbol)
  | none => (p.fetch symbol, symbol)

def onEvent (p : FeaturePipeline D) (ev : BookEvent) (nbbo : Nbbo) (queueAheadHint : D) :
    FeaturePipeline D × Option (FeatureVector D) :=
  let located := p.stateFor ev.symbol.asU64
  if quoted nbbo then
    let s := updateState p.cfg ((located.1.bySymbol located.2).getD {}) ev nbbo
    ({ located.1 with bySymbol := Function.update located.1.bySymbol located.2 (some s) },
      some (featureOf p.cfg s ev nbbo queueAheadHint))
  else (located.1, none)

variable {p : FeaturePipeline D} {ev : BookEvent} {nbbo : Nbbo} {hint : D}

/-- Features come out of every event whose quote has two sides, whatever the event is. -/
theorem onEvent_isSome : (p.onEvent ev nbbo hint).2.isSome = quoted nbbo := by
  simp only [onEvent]
  split
  · next both => exact both.symm
  · next missing => exact (Bool.not_eq_true _ ▸ missing).symm

end FeaturePipeline

/-- The bridge from merged events to features: the order books, the consolidated quote and
the feature pipeline one after the other. What the publisher does with the features is up
to the caller, so the bridge hands them out. -/
structure FeatureBridge (D : Type*) [Binary64 D] (layout : ProbeLayout UInt64) where
  books : OrderBookEngine layout := .create layout
  nbbo : NbboConsolidator := {}
  features : FeaturePipeline D := {}

namespace FeatureBridge

variable {D : Type*} [Binary64 D] {layout : ProbeLayout UInt64}

/-- The consolidated quote after an event. -/
def quoteAfter (b : FeatureBridge D layout) (ev : BookEvent) : NbboConsolidator × Nbbo :=
  b.nbbo.updateAndCurrent ev.symbol.asU64 ev.venue (b.books.onEvent ev).2.topAfter 0

/-- The bridge after an event, and the feature vector to publish, if there is one. -/
def onMergedEvent (b : FeatureBridge D layout) (ev : BookEvent) :
    FeatureBridge D layout × Option (FeatureVector D) :=
  let applied := b.books.onEvent ev
  let quote := b.quoteAfter ev
  let made := b.features.onEvent ev quote.2 (Binary64.ofNat applied.2.queueAheadBeforeAdd.toNat)
  ({ books := applied.1, nbbo := quote.1, features := made.1 }, made.2)

end FeatureBridge

end FeedHandler
