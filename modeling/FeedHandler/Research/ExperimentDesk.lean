import FeedHandler.Phase4.StrategyQuotes
import FeedHandler.Research.ExperimentRunner
import FeedHandler.Research.OfiQuotes
import FeedHandler.Research.StrategyEngineQuotes

/-! The desk of the experiment runner holds the quotes of the chosen strategy. The other
strategy has no quotes, and no order of the desk is its own. -/
namespace FeedHandler

namespace ExperimentState

open SimMatchingEngine (SideSorts)

variable {D : Type*} [Binary64 D] {layout : ProbeLayout UInt64} {x : ExperimentState D layout}
  {ev : BookEvent} {budget : Nat} {symbol : UInt64} {side : OrderSide} {q : StrategyQuote}

/-- The engine and the map of the runner. -/
def desk (x : ExperimentState D layout) : OrderDesk := ⟨x.engine, x.orderToSymbol⟩

/-- The quotes of the chosen strategy. -/
def quotes (x : ExperimentState D layout) : Quotes :=
  match x.strategyKind with
  | .marketMaking => x.strategy.quotes
  | .ofi => x.ofiStrategy.quotes

def nextOrderId (x : ExperimentState D layout) : Nat :=
  match x.strategyKind with
  | .marketMaking => x.strategy.nextOrderId
  | .ofi => x.ofiStrategy.nextOrderId

def quoteSize (x : ExperimentState D layout) : Nat :=
  match x.strategyKind with
  | .marketMaking => x.strategy.cfg.quoteSize
  | .ofi => x.ofiStrategy.cfg.quoteSize

/-- The calls of the chosen strategy at an event. -/
def calls (x : ExperimentState D layout) (ev : BookEvent) : List RouterCall :=
  match x.strategyKind with
  | .marketMaking =>
    match (x.bridge.onMergedEvent ev).2 with
    | none => []
    | some fv => (x.strategy.onFeature fv).2.map OrderIntent.asCall
  | .ofi => (x.ofiStrategy.onEvent ev).2.map OrderIntent.asCall

/-- The quotes that the chosen strategy replaces at an event. -/
def replacement (x : ExperimentState D layout) (ev : BookEvent) : Option Replacement :=
  match x.strategyKind with
  | .marketMaking => (x.bridge.onMergedEvent ev).2.bind x.strategy.replacement
  | .ofi => x.ofiStrategy.replacement ev

/-- The state in which an event is processed that the clock takes. -/
def ticked (x : ExperimentState D layout) (ev : BookEvent) : ExperimentState D layout :=
  { x with events := x.events + 1, clock := (x.clock.onEvent ev).1 }

/-- A rejected event changes counters alone. -/
theorem onEvent_rejected {letter : BookEvent × Nat} (rejects : (x.clock.onEvent letter.1).2 = false)
    (sorts : SideSorts) : x.onEvent sorts letter =
      { x with events := x.events + 1, clockRejects := x.clockRejects + 1 } := by
  simp only [onEvent, rejects, if_true]

theorem onEvent_taken {letter : BookEvent × Nat} (takes : ¬ (x.clock.onEvent letter.1).2 = false)
    (sorts : SideSorts) :
    let matched := ((x.ticked letter.1).quoted sorts letter.1).onMarketEvent letter.1 letter.2
    x.onEvent sorts letter =
      { matched with pnl := matched.pnl.onTickEnd letter.1.exchangeTsNs } := by
  simp only [onEvent, if_neg takes]
  rfl

/-- Intents work on the desk and on counters. -/
theorem foldl_onIntent (sorts : SideSorts) (x : ExperimentState D layout)
    (intents : List OrderIntent) :
    let routed := intents.foldl (onIntent sorts) x
    routed.desk = (intents.map OrderIntent.asCall).foldl (OrderDesk.route sorts) x.desk ∧
      routed.strategy = x.strategy ∧ routed.ofiStrategy = x.ofiStrategy ∧
      routed.strategyKind = x.strategyKind := by
  induction intents generalizing x with
  | nil => exact ⟨rfl, rfl, rfl, rfl⟩
  | cons intent rest ih =>
    have first : (x.onIntent sorts intent).desk = x.desk.route sorts intent.asCall ∧
        (x.onIntent sorts intent).strategy = x.strategy ∧
        (x.onIntent sorts intent).ofiStrategy = x.ofiStrategy ∧
        (x.onIntent sorts intent).strategyKind = x.strategyKind := by
      obtain ⟨action, symbol, side, price, qty, tsNs, id⟩ := intent
      cases action <;> exact ⟨rfl, rfl, rfl, rfl⟩
    obtain ⟨desk, strategy, ofi, kind⟩ := ih (x.onIntent sorts intent)
    rw [first.1] at desk
    rw [first.2.1] at strategy
    rw [first.2.2.1] at ofi
    rw [first.2.2.2] at kind
    exact ⟨desk, strategy, ofi, kind⟩

/-- What the market-making strategy does with an event, if it is the chosen one. -/
theorem quoted_marketMaking (kind : x.strategyKind = .marketMaking) (sorts : SideSorts)
    (ev : BookEvent) :
    let after := x.quoted sorts ev
    after.desk = (x.calls ev).foldl (OrderDesk.route sorts) x.desk ∧
      after.strategyKind = .marketMaking ∧
      after.strategy = match (x.bridge.onMergedEvent ev).2 with
        | none => x.strategy
        | some fv => (x.strategy.onFeature fv).1 := by
  have merged : (x.onMergedEvent sorts ev).desk =
        (x.calls ev).foldl (OrderDesk.route sorts) x.desk ∧
      (x.onMergedEvent sorts ev).strategyKind = .marketMaking ∧
      (x.onMergedEvent sorts ev).strategy = match (x.bridge.onMergedEvent ev).2 with
        | none => x.strategy
        | some fv => (x.strategy.onFeature fv).1 := by
    simp only [onMergedEvent, calls, kind]
    cases (x.bridge.onMergedEvent ev).2 with
    | none => exact ⟨rfl, rfl, rfl⟩
    | some fv =>
      simp only [tryPublish]
      obtain ⟨desk, strategy, -, same⟩ := foldl_onIntent sorts
        { x with
          strategyKind := .marketMaking
          bridge := (x.bridge.onMergedEvent ev).1
          pnl := x.pnl.onFeature fv
          bySymbolTop :=
            Function.update x.bySymbolTop fv.symbolU64 (some (fv.nbboBidPrice, fv.nbboAskPrice))
          strategy := (x.strategy.onFeature fv).1 } (x.strategy.onFeature fv).2
      exact ⟨desk, same, strategy⟩
  simp only [quoted, onOfiEvent]
  split
  · exact merged
  · next other =>
    rw [merged.2.1] at other
    cases other

/-- What the order flow strategy does with an event, if it is the chosen one: features do
nothing for it. -/
theorem quoted_ofi (kind : x.strategyKind = .ofi) (sorts : SideSorts) (ev : BookEvent) :
    let after := x.quoted sorts ev
    after.desk = (x.calls ev).foldl (OrderDesk.route sorts) x.desk ∧ after.strategyKind = .ofi ∧
      after.ofiStrategy = (x.ofiStrategy.onEvent ev).1 := by
  have merged : (x.onMergedEvent sorts ev).desk = x.desk ∧
      (x.onMergedEvent sorts ev).strategyKind = .ofi ∧
      (x.onMergedEvent sorts ev).ofiStrategy = x.ofiStrategy := by
    simp only [onMergedEvent]
    cases (x.bridge.onMergedEvent ev).2 with
    | none => exact ⟨rfl, kind, rfl⟩
    | some fv =>
      simp only [tryPublish, kind]
      exact ⟨rfl, trivial, trivial⟩
  obtain ⟨desk, same, ofi⟩ := merged
  simp only [quoted, onOfiEvent, same, ofi, calls, kind]
  obtain ⟨routed, -, strategy, after⟩ := foldl_onIntent sorts
    { x.onMergedEvent sorts ev with
      strategyKind := .ofi
      ofiStrategy := (x.ofiStrategy.onEvent ev).1 } (x.ofiStrategy.onEvent ev).2
  rw [← desk]
  exact ⟨routed, after, strategy⟩

/-- What the chosen strategy does with an event is a move of its quotes. -/
theorem quoted_move (sized : 0 < x.quoteSize) (started : 0 < x.nextOrderId) (sorts : SideSorts)
    (ev : BookEvent) :
    let after := x.quoted sorts ev
    after.desk = (x.calls ev).foldl (OrderDesk.route sorts) x.desk ∧
      after.quoteSize = x.quoteSize ∧
      Move x.quoteSize x.quotes x.nextOrderId (x.replacement ev) (x.calls ev) after.quotes
        after.nextOrderId := by
  cases kind : x.strategyKind with
  | marketMaking =>
    obtain ⟨desk, same, strategy⟩ := quoted_marketMaking kind sorts ev
    refine ⟨desk, ?_⟩
    simp only [quoteSize, quotes, nextOrderId, replacement, calls, kind, same, strategy]
    cases (x.bridge.onMergedEvent ev).2 with
    | none => exact ⟨rfl, rfl, rfl, rfl⟩
    | some fv =>
      simp only [StrategyEngine.onFeature_cfg, true_and]
      exact x.strategy.onFeature_move fv
  | ofi =>
    obtain ⟨desk, same, strategy⟩ := quoted_ofi kind sorts ev
    simp only [quoteSize, nextOrderId, kind] at sized started
    refine ⟨desk, ?_⟩
    simp only [quoteSize, quotes, nextOrderId, replacement, calls, kind, same, strategy,
      OfiStrategy.onEvent_cfg, true_and]
    exact OfiStrategy.onEvent_move sized started ev

/-- A fill that the map knows reaches the strategies. -/
theorem onFill_bound (fill : Fill) {symbol : UInt64}
    (bound : x.orderToSymbol fill.orderId = some symbol) :
    (x.onFill fill).engine = x.engine ∧
      (x.onFill fill).orderToSymbol = OrderDesk.settle x.orderToSymbol fill ∧
      (x.onFill fill).strategyKind = x.strategyKind ∧
      (x.onFill fill).strategy = x.strategy.onFill symbol fill ∧
      (x.onFill fill).ofiStrategy = x.ofiStrategy.onFill symbol fill := by
  simp only [onFill, bound]
  exact ⟨trivial, rfl, trivial, trivial, trivial⟩

/-- A fill of a quote takes it once it is filled up. -/
theorem onFill_quote (fill : Fill) (bound : x.orderToSymbol fill.orderId = some symbol)
    (quoted : x.quotes symbol side = some q) (same : fill.orderId = q.orderId)
    (unique : ∀ key other r, x.quotes key other = some r → r.orderId = q.orderId →
      key = symbol ∧ other = side) :
    (x.onFill fill).quotes = x.quotes.settle symbol side q fill.isPartial ∧
      (x.onFill fill).nextOrderId = x.nextOrderId ∧ (x.onFill fill).quoteSize = x.quoteSize := by
  obtain ⟨-, -, kind, strategy, ofi⟩ := onFill_bound fill bound
  simp only [quotes, nextOrderId, quoteSize, kind, strategy, ofi] at quoted unique ⊢
  cases chosen : x.strategyKind with
  | marketMaking =>
    simp only [chosen] at quoted unique ⊢
    exact ⟨StrategyEngine.onFill_quote fill quoted same unique,
      StrategyEngine.onFill_nextOrderId _ _ _,
      congrArg StrategyEngine.Config.quoteSize (StrategyEngine.onFill_cfg _ _ _)⟩
  | ofi =>
    simp only [chosen] at quoted unique ⊢
    exact ⟨(OfiStrategy.onFill_quote fill quoted same unique).1,
      OfiStrategy.onFill_nextOrderId _ _ _,
      congrArg OfiStrategy.Config.quoteSize (OfiStrategy.onFill_cfg _ _ _)⟩

/-- The desk holds the quotes of the chosen strategy, which have a size. -/
structure Held (x : ExperimentState D layout) : Prop where
  sized : 0 < x.quoteSize
  mirrors : Mirrored x.quoteSize x.quotes x.nextOrderId x.desk

theorem create_quotes (cfg : ExperimentConfig D) (symbol : UInt64) (side : OrderSide) :
    (create cfg : ExperimentState D layout).quotes symbol side = none := by
  obtain ⟨kind, -, -, -⟩ := cfg
  cases kind <;> cases side <;> rfl

theorem create_nextOrderId (cfg : ExperimentConfig D) :
    (create cfg : ExperimentState D layout).nextOrderId = 1 := by
  obtain ⟨kind, -, -, -⟩ := cfg
  cases kind <;> rfl

theorem create_held {cfg : ExperimentConfig D}
    (sized : 0 < (create cfg : ExperimentState D layout).quoteSize) :
    Held (create cfg : ExperimentState D layout) where
  sized := sized
  mirrors := by
    rw [create_nextOrderId]
    exact Mirrored.of_empty _ (create_quotes cfg)

theorem Held.ticked (held : Held x) (ev : BookEvent) : Held (x.ticked ev) :=
  ⟨held.sized, held.mirrors⟩

theorem Held.quoted (held : Held x) (sorts : SideSorts) (ev : BookEvent) :
    Held (x.quoted sorts ev) := by
  obtain ⟨desk, size, moves⟩ := quoted_move held.sized held.mirrors.started sorts ev
  rw [← size] at moves
  refine ⟨size ▸ held.sized, ?_⟩
  rw [desk]
  exact (Mirrored.move sorts (size ▸ held.sized) moves (size ▸ held.mirrors)).1

/-- What the one fill of a print does to the runner. -/
theorem Held.struck (held : Held x) (strikes : Strikes x.quotes ev budget side q) :
    ∃ qty tsNs,
      Struck x.quoteSize x.desk ev budget side q qty tsNs ∧
      let after := x.onMarketEvent ev budget
      let fill := strikeFill ev budget side q qty
      Held after ∧ after.engine = (x.engine.onMarketEvent ev budget).1 ∧
        after.strategyKind = x.strategyKind ∧ after.quoteSize = x.quoteSize ∧
        after.quotes = x.quotes.settle ev.symbol.asU64 side q fill.isPartial ∧
        after.ofiStrategy = x.ofiStrategy.onFill ev.symbol.asU64 fill := by
  obtain ⟨qty, tsNs, struck⟩ := held.mirrors.struck strikes
  refine ⟨qty, tsNs, struck, ?_⟩
  have fills : (x.engine.onMarketEvent ev budget).2 = [strikeFill ev budget side q qty] :=
    struck.fills
  have bound : x.orderToSymbol (strikeFill ev budget side q qty).orderId = some ev.symbol.asU64 :=
    held.mirrors.bound _ _ q strikes.quoted
  let matched := { x with engine := (x.engine.onMarketEvent ev budget).1 }
  have whole : x.onMarketEvent ev budget = matched.onFill (strikeFill ev budget side q qty) := by
    rw [onMarketEvent, fills]
    rfl
  obtain ⟨engine, settled, kind, -, ofi⟩ :=
    onFill_bound (x := matched) (strikeFill ev budget side q qty) bound
  obtain ⟨quotes, next, size⟩ := onFill_quote (x := matched) (strikeFill ev budget side q qty) bound
    strikes.quoted rfl (held.mirrors.alone strikes.quoted)
  rw [whole]
  refine ⟨⟨size ▸ held.sized, ?_⟩, engine, kind, size, quotes, ofi⟩
  rw [quotes, next, size, desk, engine, settled]
  exact struck.mirrors held.mirrors strikes.quoted

/-- A print that strikes no quote does nothing to the strategies. -/
theorem Held.unstruck (held : Held x) (missed : ∀ side q, ¬ Strikes x.quotes ev budget side q) :
    let after := x.onMarketEvent ev budget
    Held after ∧ after.engine = (x.engine.onMarketEvent ev budget).1 ∧
      after.strategyKind = x.strategyKind ∧ after.quoteSize = x.quoteSize ∧
      after.quotes = x.quotes ∧ after.ofiStrategy = x.ofiStrategy := by
  obtain ⟨fills, -, after⟩ := held.mirrors.unstruck missed
  have quiet : (x.engine.onMarketEvent ev budget).2 = [] := fills
  simp only [onMarketEvent, quiet]
  exact ⟨⟨held.sized, after⟩, rfl, rfl, rfl, rfl, rfl⟩

/-- A print leaves the desk with the quotes of the chosen strategy, and takes none but the one
it strikes. -/
theorem Held.matched (held : Held x) (ev : BookEvent) (budget : Nat) :
    let after := x.onMarketEvent ev budget
    Held after ∧ after.quoteSize = x.quoteSize ∧
      ∀ key other r, after.quotes key other = some r → x.quotes key other = some r := by
  by_cases strikes : ∃ side q, Strikes x.quotes ev budget side q
  · obtain ⟨side, q, strikes⟩ := strikes
    obtain ⟨qty, tsNs, -, after, -, -, size, quotes, -⟩ := held.struck strikes
    refine ⟨after, size, fun key other r left => ?_⟩
    rw [quotes] at left
    exact Quotes.of_settle strikes.quoted left
  · obtain ⟨after, -, -, size, quotes, -⟩ := held.unstruck fun side q strike =>
      strikes ⟨side, q, strike⟩
    refine ⟨after, size, fun key other r left => ?_⟩
    rwa [quotes] at left

end ExperimentState

end FeedHandler
