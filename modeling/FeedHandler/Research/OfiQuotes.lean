import FeedHandler.Phase4.QuoteMirror
import FeedHandler.Phase4.PnlAccountant
import FeedHandler.Research.OfiStrategy
import FeedHandler.Research.StrategyAgreement

/-! The order flow strategy as a maker of quotes: an order id that is not zero stands for a
quote at the price that was quoted last. -/
namespace FeedHandler

namespace OfiStrategy

variable {D : Type*} [Binary64 D] {layout : ProbeLayout UInt64}

def quoteAt (orderId : Nat) (price : Int) : Option StrategyQuote :=
  if orderId = 0 then none else some ⟨orderId, price⟩

def State.quote (st : State D) : OrderSide → Option StrategyQuote
  | .buy => quoteAt st.bidOrderId st.lastBidQuote
  | .sell => quoteAt st.askOrderId st.lastAskQuote

def quotes (s : OfiStrategy D layout) : Quotes :=
  fun symbol side => (s.bySymbol.state symbol).quote side

/-- The top of the strategy's own book after an event. -/
def topAfter (s : OfiStrategy D layout) (ev : BookEvent) : TopOfBook :=
  (s.bookEngine.onEvent ev).1.topOfBook ev.venue ev.symbol.asU64

/-- The state in which the strategy decides on its quotes. -/
def deciding (s : OfiStrategy D layout) (ev : BookEvent) : State D :=
  let seen := observe s.cfg (s.bySymbol.state ev.symbol.asU64) ev
  { seen with eventsSinceQuote := seen.eventsSinceQuote + 1 }

/-- The replacement in a state: one side at the limit of the position, else both. -/
def replacementOf (cfg : Config D) (st : State D) (symbol : UInt64)
    (bestBid bestAsk bidQuote askQuote : Int) (tsNs : UInt64) : Replacement where
  symbol := symbol
  bid :=
    if st.inventory ≥ cfg.maxPosition then none
    else if st.inventory ≤ -cfg.maxPosition then
      some (bestAsk + cfg.aggressiveFlattenOffsetTicks)
    else some bidQuote
  ask :=
    if st.inventory ≥ cfg.maxPosition then some (bestBid - cfg.aggressiveFlattenOffsetTicks)
    else if st.inventory ≤ -cfg.maxPosition then none
    else some askQuote
  tsNs := tsNs

/-- The quotes that an event replaces. -/
def replacement (s : OfiStrategy D layout) (ev : BookEvent) : Option Replacement :=
  let top := s.topAfter ev
  let bestBid : Int := top.bidPrice.toNat
  let bestAsk : Int := top.askPrice.toNat
  let st := s.deciding ev
  let center := centerOf s.cfg st.signal.value bestBid bestAsk
  let bidQuote := center - s.cfg.halfSpreadTicks
  let askQuote := center + s.cfg.halfSpreadTicks
  if !top.hasBid || !top.hasAsk || stands s.cfg st bidQuote askQuote then none
  else
    some (replacementOf s.cfg st ev.symbol.asU64 bestBid bestAsk bidQuote askQuote ev.exchangeTsNs)

variable {s : OfiStrategy D layout} {ev : BookEvent} {symbol : UInt64} {side : OrderSide}
  {q : StrategyQuote}

theorem cancelIfActive_asCall (symbol : UInt64) (orderId : Nat) (side : OrderSide) (price : Int)
    (tsNs : UInt64) : (cancelIfActive symbol orderId side price tsNs).map OrderIntent.asCall =
      cancelCalls (quoteAt orderId price) tsNs := by
  simp only [cancelIfActive, quoteAt]
  split <;> rfl

theorem submit_sized {size : Nat} (sized : 0 < size) (next : Nat) (symbol : UInt64)
    (side : OrderSide) (price : Int) (tsNs : UInt64) :
    submit next symbol side price size tsNs =
      (next, next + 1, [⟨.submit, symbol, side, price, size, tsNs, next⟩]) :=
  if_neg (Nat.pos_iff_ne_zero.mp sized)

/-- A requote replaces the quotes of the state. -/
theorem requote_eq {cfg : Config D} (sized : 0 < cfg.quoteSize) {next : Nat} (started : 0 < next)
    (symbol : UInt64) (st : State D) (bestBid bestAsk bidQuote askQuote : Int) (tsNs : UInt64) :
    let made := requote cfg next symbol st bestBid bestAsk bidQuote askQuote tsNs
    let p := replacementOf cfg st symbol bestBid bestAsk bidQuote askQuote tsNs
    made.1.inventory = st.inventory ∧ made.1.quote = p.quote next ∧ made.2.1 = p.last next ∧
      made.2.2.map OrderIntent.asCall = cancelCalls (st.quote .buy) tsNs ++
        cancelCalls (st.quote .sell) tsNs ++ p.submits cfg.quoteSize next .buy ++
        p.submits cfg.quoteSize next .sell := by
  have cancelsBid := cancelIfActive_asCall symbol st.bidOrderId .buy st.lastBidQuote tsNs
  have cancelsAsk := cancelIfActive_asCall symbol st.askOrderId .sell st.lastAskQuote tsNs
  have nonzero : next ≠ 0 := Nat.pos_iff_ne_zero.mp started
  have quoted : ∀ {bid ask : Option Int} {made : State D},
      made.quote .buy = bid.map (fun price => ⟨next, price⟩) →
      made.quote .sell = ask.map (fun price =>
        ⟨(⟨symbol, bid, ask, tsNs⟩ : Replacement).orderId next .sell, price⟩) →
      made.quote = (⟨symbol, bid, ask, tsNs⟩ : Replacement).quote next := by
    intro bid ask made buy sell
    funext side
    cases side
    · exact buy
    · exact sell
  simp only [requote, submit_sized sized, replacementOf]
  by_cases long : st.inventory ≥ cfg.maxPosition
  · simp only [if_pos long, List.map_append, cancelsBid, cancelsAsk]
    refine ⟨trivial, quoted rfl (if_neg nonzero), rfl, ?_⟩
    exact (congrArg (· ++ _) (List.append_nil _)).symm
  · by_cases short : st.inventory ≤ -cfg.maxPosition
    · simp only [if_neg long, if_pos short, List.map_append, cancelsBid, cancelsAsk]
      refine ⟨trivial, quoted (if_neg nonzero) rfl, rfl, ?_⟩
      exact (List.append_nil _).symm
    · simp only [if_neg long, if_neg short, List.map_append, cancelsBid, cancelsAsk]
      refine ⟨trivial, quoted (if_neg nonzero) ?_, rfl, rfl⟩
      simp [State.quote, quoteAt, Replacement.orderId]

theorem onEvent_eq (s : OfiStrategy D layout) (ev : BookEvent) :
    s.onEvent ev =
      let top := s.topAfter ev
      let bestBid : Int := top.bidPrice.toNat
      let bestAsk : Int := top.askPrice.toNat
      let st := s.deciding ev
      let center := centerOf s.cfg st.signal.value bestBid bestAsk
      let bidQuote := center - s.cfg.halfSpreadTicks
      let askQuote := center + s.cfg.halfSpreadTicks
      let kept (st : State D) : OfiStrategy D layout × List OrderIntent :=
        ({ s with
            bookEngine := (s.bookEngine.onEvent ev).1
            bySymbol := s.bySymbol.set ev.symbol.asU64 st }, [])
      if !top.hasBid || !top.hasAsk then
        kept (observe s.cfg (s.bySymbol.state ev.symbol.asU64) ev)
      else if stands s.cfg st bidQuote askQuote then kept st
      else
        let made := requote s.cfg s.nextOrderId ev.symbol.asU64 st bestBid bestAsk bidQuote askQuote
          ev.exchangeTsNs
        ({ s with
            bookEngine := (s.bookEngine.onEvent ev).1
            bySymbol := s.bySymbol.set ev.symbol.asU64 made.1
            nextOrderId := made.2.1 }, made.2.2) := rfl

/-- An event leaves the quotes and the inventory of its symbol, or replaces the quotes. -/
theorem onEvent_cases (sized : 0 < s.cfg.quoteSize) (started : 0 < s.nextOrderId) (ev : BookEvent) :
    let made := s.onEvent ev
    let old := s.bySymbol.state ev.symbol.asU64
    ∃ st, made.1.bySymbol.state = Function.update s.bySymbol.state ev.symbol.asU64 st ∧
      st.inventory = old.inventory ∧
      match s.replacement ev with
      | none => made.2 = [] ∧ made.1.nextOrderId = s.nextOrderId ∧ st.quote = old.quote
      | some p => p.symbol = ev.symbol.asU64 ∧ made.1.nextOrderId = p.last s.nextOrderId ∧
          st.quote = p.quote s.nextOrderId ∧
          made.2.map OrderIntent.asCall = p.calls s.cfg.quoteSize s.quotes s.nextOrderId := by
  simp only [onEvent_eq, replacement]
  by_cases blind : (!(s.topAfter ev).hasBid || !(s.topAfter ev).hasAsk) = true
  · simp only [blind, Bool.true_or, if_true]
    exact ⟨_, rfl, rfl, trivial, trivial, rfl⟩
  · simp only [Bool.eq_false_iff.mpr blind, Bool.false_or, Bool.false_eq_true, if_false]
    split
    · exact ⟨_, rfl, rfl, rfl, rfl, rfl⟩
    · obtain ⟨inventory, quote, next, calls⟩ := requote_eq sized started ev.symbol.asU64
        (s.deciding ev) _ _ _ _ ev.exchangeTsNs
      exact ⟨_, rfl, inventory, rfl, next, quote, calls⟩

/-- A side is quoted only while the position is within its limit. -/
theorem replacement_sides {p : Replacement} (positive : 1 ≤ s.cfg.maxPosition)
    (replaced : s.replacement ev = some p) :
    (p.bid ≠ none → (s.bySymbol.state p.symbol).inventory < s.cfg.maxPosition) ∧
      (p.ask ≠ none → -s.cfg.maxPosition < (s.bySymbol.state p.symbol).inventory) := by
  have own : (s.deciding ev).inventory = (s.bySymbol.state ev.symbol.asU64).inventory := rfl
  simp only [replacement] at replaced
  split at replaced
  · cases replaced
  · cases replaced
    simp only [replacementOf, ← own]
    constructor
    · intro bids
      by_contra long
      exact bids (if_pos (not_lt.mp long))
    · intro asks
      by_contra short
      have under := not_lt.mp short
      have below : ¬ (s.deciding ev).inventory ≥ s.cfg.maxPosition := by omega
      rw [if_neg below, if_pos under] at asks
      exact asks rfl

theorem onEvent_move (sized : 0 < s.cfg.quoteSize) (started : 0 < s.nextOrderId) (ev : BookEvent) :
    Move s.cfg.quoteSize s.quotes s.nextOrderId (s.replacement ev)
      ((s.onEvent ev).2.map OrderIntent.asCall) (s.onEvent ev).1.quotes
      (s.onEvent ev).1.nextOrderId := by
  obtain ⟨st, state, -, outcome⟩ := onEvent_cases sized started ev
  cases replaced : s.replacement ev with
  | none =>
    simp only [replaced] at outcome
    obtain ⟨calls, next, quote⟩ := outcome
    refine ⟨?_, ?_, next⟩
    · rw [calls]
      rfl
    · funext key side
      simp only [quotes, state, Function.update_apply, Option.map_none, Option.getD_none]
      split
      · next here => rw [here, quote]
      · rfl
  | some p =>
    simp only [replaced] at outcome
    obtain ⟨place, next, quote, calls⟩ := outcome
    refine ⟨calls, ?_, next⟩
    funext key side
    simp only [quotes, state, Function.update_apply, Option.map_some, Option.getD_some,
      Replacement.quotes, place]
    split
    · rw [quote]
    · rfl

/-- Events change no inventory. -/
theorem onEvent_inventory (sized : 0 < s.cfg.quoteSize) (started : 0 < s.nextOrderId)
    (ev : BookEvent) (key : UInt64) :
    ((s.onEvent ev).1.bySymbol.state key).inventory = (s.bySymbol.state key).inventory := by
  obtain ⟨st, state, inventory, -⟩ := onEvent_cases sized started ev
  rw [state, Function.update_apply]
  split
  · next here => rw [inventory, here]
  · rfl

theorem onEvent_cfg (s : OfiStrategy D layout) (ev : BookEvent) : (s.onEvent ev).1.cfg = s.cfg := by
  simp only [onEvent]
  split
  · rfl
  · split <;> rfl

theorem onFill_cfg (s : OfiStrategy D layout) (symbol : UInt64) (fill : Fill) :
    (s.onFill symbol fill).cfg = s.cfg := by
  simp only [onFill]
  split <;> rfl

theorem onFill_nextOrderId (s : OfiStrategy D layout) (symbol : UInt64) (fill : Fill) :
    (s.onFill symbol fill).nextOrderId = s.nextOrderId := by
  simp only [onFill]
  split <;> rfl

theorem quote_nonzero {st : State D} (quoted : st.quote side = some q) : q.orderId ≠ 0 := by
  have at_ : ∀ {id price}, quoteAt id price = some q → q.orderId ≠ 0 := by
    intro id price held
    simp only [quoteAt] at held
    split at held
    · cases held
    · next nonzero =>
      cases held
      exact nonzero
  cases side
  · exact at_ quoted
  · exact at_ quoted

theorem quoteAt_afterFill {fill : Fill} (nonzero : fill.orderId ≠ 0) (orderId : Nat) (price : Int) :
    quoteAt (if fill.isPartial = false ∧ orderId = fill.orderId then 0 else orderId) price =
      (quoteAt orderId price).filter fun r => fill.isPartial || r.orderId != fill.orderId := by
  by_cases closed : fill.isPartial = false ∧ orderId = fill.orderId
  · have own : quoteAt orderId price = some ⟨orderId, price⟩ := if_neg (closed.2 ▸ nonzero)
    have gone : (fill.isPartial || orderId != fill.orderId) = false := by
      rw [closed.1, closed.2, bne_self_eq_false, Bool.false_or]
    rw [if_pos closed, own, Option.filter_some, gone]
    rfl
  · rw [if_neg closed]
    by_cases idle : orderId = 0
    · have none : quoteAt orderId price = none := if_pos idle
      rw [none, Option.filter_none]
    · have own : quoteAt orderId price = some ⟨orderId, price⟩ := if_neg idle
      have kept : (fill.isPartial || orderId != fill.orderId) = true := by
        rw [Bool.or_eq_true, bne_iff_ne, ← Bool.not_eq_false, ← not_and_or]
        exact closed
      rw [own, Option.filter_some, kept, if_pos rfl]

/-- A fill takes the quotes with its id, unless it is partial. -/
theorem quote_applyFill {fill : Fill} (st : State D) (side : OrderSide)
    (nonzero : fill.orderId ≠ 0) :
    (applyFill st fill).quote side =
      (st.quote side).filter fun r => fill.isPartial || r.orderId != fill.orderId := by
  cases side
  · exact quoteAt_afterFill nonzero st.bidOrderId st.lastBidQuote
  · exact quoteAt_afterFill nonzero st.askOrderId st.lastAskQuote

/-- A fill of a quote changes the inventory of its symbol, and takes the quote once it is
filled up. -/
theorem onFill_quote (fill : Fill) (quoted : s.quotes symbol side = some q)
    (same : fill.orderId = q.orderId)
    (unique : ∀ key other r, s.quotes key other = some r → r.orderId = q.orderId →
      key = symbol ∧ other = side) :
    (s.onFill symbol fill).quotes =
        s.quotes.settle symbol side q fill.isPartial ∧
      ∀ key, ((s.onFill symbol fill).bySymbol.state key).inventory =
        (s.bySymbol.state key).inventory + if key = symbol then fill.signedQty else 0 := by
  have nonzero : fill.orderId ≠ 0 := same ▸ quote_nonzero quoted
  have known : symbol ∈ s.bySymbol.keys := by
    by_contra absent
    rw [quotes, s.bySymbol.untouched symbol absent] at quoted
    cases side <;> cases quoted
  have state : (s.onFill symbol fill).bySymbol.state =
      Function.update s.bySymbol.state symbol (applyFill (s.bySymbol.state symbol) fill) := by
    rw [onFill, if_pos known]
    rfl
  refine ⟨Quotes.eq_settle ?_ fun key other elsewhere => ?_, ?_⟩
  · have own : (s.bySymbol.state symbol).quote side = some q := quoted
    rw [quotes, state, Function.update_self, quote_applyFill _ _ nonzero, own, same]
    cases fill.isPartial <;> simp
  · simp only [quotes, state, Function.update_apply]
    split
    · next here =>
      rw [quote_applyFill _ _ nonzero, ← here]
      cases held : (s.bySymbol.state key).quote other with
      | none => rfl
      | some r =>
        have differs : r.orderId ≠ fill.orderId := fun equal =>
          elsewhere (unique key other r held (equal.trans same))
        rw [Option.filter_some, bne_iff_ne.mpr differs, Bool.or_true, if_pos rfl]
    · rfl
  · intro key
    rw [state, Function.update_apply]
    split
    · next here =>
      rw [here]
      simp only [applyFill, Fill.signedQty]
      cases fill.side
      · rfl
      · exact Int.sub_eq_add_neg
    · exact (add_zero _).symm

end OfiStrategy

end FeedHandler
