import FeedHandler.Phase4.BacktestRunner
import FeedHandler.Phase4.PnlEquity

/-! The parts of the backtest stay in step: inventory and position are the same number, and
the engine holds the quotes of the strategy. -/
namespace FeedHandler

namespace BacktestRunner

open SimMatchingEngine (SideSorts)

variable {D : Type*} [Binary64 D] {layout : ProbeLayout UInt64} {r : BacktestRunner D layout}
  {sorts : SideSorts} {ev : BookEvent} {budget : Nat}

/-- The desk holds the quotes of the strategy, and inventory and position are level. -/
structure Consistent (r : BacktestRunner D layout) : Prop where
  sized : 0 < r.strategy.cfg.quoteSize
  mirrors : Mirrored r.strategy.cfg.quoteSize r.strategy.quotes r.strategy.nextOrderId r.desk
  level : ∀ symbol, (r.strategy.bySymbol.state symbol).inventory =
    (r.pnl.bySymbol.state symbol).position

theorem create_quotes (strategyCfg : MarketMakingStrategy.Config D)
    (pnlCfg : PnlAccountant.Config) (symbol : UInt64) (side : OrderSide) :
    (create strategyCfg pnlCfg : BacktestRunner D layout).strategy.quotes symbol side = none := by
  cases side <;> rfl

theorem create_consistent {strategyCfg : MarketMakingStrategy.Config D}
    (pnlCfg : PnlAccountant.Config) (sized : 0 < strategyCfg.quoteSize) :
    Consistent (create strategyCfg pnlCfg : BacktestRunner D layout) where
  sized := sized
  mirrors := Mirrored.of_empty _ (create_quotes strategyCfg pnlCfg)
  level := fun _ => rfl

/-- The calls of the strategy at an event. -/
def calls (r : BacktestRunner D layout) (ev : BookEvent) : List RouterCall :=
  match (r.bridge.onMergedEvent ev).2 with
  | none => []
  | some fv => (r.strategy.onFeature fv).2

/-- The quotes that the strategy replaces at an event. -/
def replaced (r : BacktestRunner D layout) (ev : BookEvent) : Option Replacement :=
  (r.bridge.onMergedEvent ev).2.bind r.strategy.replacement

/-- The router follows the strategy, whose calls are a move of its quotes. -/
theorem onMergedEvent_desk (sorts : SideSorts) (r : BacktestRunner D layout) (ev : BookEvent) :
    (r.onMergedEvent sorts ev).desk = (r.calls ev).foldl (OrderDesk.route sorts) r.desk ∧
      (r.onMergedEvent sorts ev).strategy.cfg = r.strategy.cfg ∧
      Move r.strategy.cfg.quoteSize r.strategy.quotes r.strategy.nextOrderId (r.replaced ev)
        (r.calls ev) (r.onMergedEvent sorts ev).strategy.quotes
        (r.onMergedEvent sorts ev).strategy.nextOrderId := by
  simp only [onMergedEvent, calls, replaced]
  cases (r.bridge.onMergedEvent ev).2 with
  | none => exact ⟨rfl, rfl, rfl, rfl, rfl⟩
  | some fv =>
    simp only [tryPublish, Option.bind_some]
    obtain ⟨desk, strategy, -, -⟩ := foldl_route sorts
      { r with
        bridge := (r.bridge.onMergedEvent ev).1
        pnl := r.pnl.onFeature fv
        strategy := (r.strategy.onFeature fv).1 } (r.strategy.onFeature fv).2
    rw [strategy]
    exact ⟨desk, MarketMakingStrategy.onFeature_cfg, r.strategy.onFeature_move fv⟩

/-- Features move inventory and position nowhere. -/
theorem onMergedEvent_level (sorts : SideSorts) (r : BacktestRunner D layout) (ev : BookEvent)
    (symbol : UInt64) :
    ((r.onMergedEvent sorts ev).strategy.bySymbol.state symbol).inventory =
        (r.strategy.bySymbol.state symbol).inventory ∧
      ((r.onMergedEvent sorts ev).pnl.bySymbol.state symbol).position =
        (r.pnl.bySymbol.state symbol).position := by
  simp only [onMergedEvent]
  cases (r.bridge.onMergedEvent ev).2 with
  | none => exact ⟨rfl, rfl⟩
  | some fv =>
    simp only [tryPublish]
    obtain ⟨-, strategy, -, pnl⟩ := foldl_route sorts
      { r with
        bridge := (r.bridge.onMergedEvent ev).1
        pnl := r.pnl.onFeature fv
        strategy := (r.strategy.onFeature fv).1 } (r.strategy.onFeature fv).2
    obtain ⟨mid, known, same⟩ := PnlAccountant.onFeature_state r.pnl fv symbol
    rw [strategy, pnl, same, MarketMakingStrategy.onFeature_inventory]
    exact ⟨rfl, rfl⟩

theorem Consistent.merged (consistent : Consistent r) (sorts : SideSorts) (ev : BookEvent) :
    Consistent (r.onMergedEvent sorts ev) := by
  obtain ⟨sized, mirrors, level⟩ := consistent
  obtain ⟨desk, cfg, moves⟩ := onMergedEvent_desk sorts r ev
  refine ⟨by rw [cfg]; exact sized, ?_, fun symbol => ?_⟩
  · rw [cfg, desk]
    exact (mirrors.move sorts sized moves).1
  · obtain ⟨inventory, position⟩ := onMergedEvent_level sorts r ev symbol
    rw [inventory, position]
    exact level symbol

/-- A fill that reaches the callback: its order is bound to the symbol, and the strategy holds
it for an active quote there. -/
structure Heard (r : BacktestRunner D layout) (symbol : UInt64) (fill : Fill) : Prop where
  bound : r.orderToSymbol fill.orderId = some symbol
  held : (r.strategy.bySymbol.state symbol).Holds fill

/-- A print fills at most one order, and that fill is heard. -/
theorem Consistent.heard (consistent : Consistent r) (ev : BookEvent) (budget : Nat) :
    (r.engine.onMarketEvent ev budget).2 = [] ∨
      ∃ fill, (r.engine.onMarketEvent ev budget).2 = [fill] ∧ Heard r ev.symbol.asU64 fill := by
  by_cases strikes : ∃ side q, Strikes r.strategy.quotes ev budget side q
  · obtain ⟨side, q, strikes⟩ := strikes
    obtain ⟨qty, tsNs, struck⟩ := consistent.mirrors.struck strikes
    have own : ∀ key other, _ ↔ key = ev.symbol.asU64 ∧ other = side :=
      MarketMakingStrategy.holds_iff (strikeFill ev budget side q qty) strikes.quoted rfl
        (consistent.mirrors.alone strikes.quoted)
    refine Or.inr ⟨_, struck.fills, consistent.mirrors.bound _ _ q strikes.quoted, ?_⟩
    cases side
    · exact Or.inl ((own ev.symbol.asU64 .buy).mpr ⟨rfl, rfl⟩)
    · exact Or.inr ((own ev.symbol.asU64 .sell).mpr ⟨rfl, rfl⟩)
  · exact Or.inl (consistent.mirrors.unstruck fun side q held => strikes ⟨side, q, held⟩).1

/-- A print keeps the parts in step, and takes no quote but the one it strikes. -/
theorem Consistent.matched (consistent : Consistent r) (ev : BookEvent) (budget : Nat) :
    let after := r.onMarketEvent ev budget
    Consistent after ∧ after.strategy.cfg = r.strategy.cfg ∧
      ∀ key other p, after.strategy.quotes key other = some p →
        r.strategy.quotes key other = some p := by
  by_cases strikes : ∃ side q, Strikes r.strategy.quotes ev budget side q
  · obtain ⟨side, q, strikes⟩ := strikes
    obtain ⟨qty, tsNs, struck⟩ := consistent.mirrors.struck strikes
    have fills := struck.fills
    have after := struck.mirrors consistent.mirrors strikes.quoted
    have bound : r.orderToSymbol (strikeFill ev budget side q qty).orderId = some ev.symbol.asU64 :=
      consistent.mirrors.bound _ _ q strikes.quoted
    obtain ⟨quotes, inventory⟩ := MarketMakingStrategy.onFill_quote
      (strikeFill ev budget side q qty) strikes.quoted rfl (consistent.mirrors.alone strikes.quoted)
    simp only [onMarketEvent, desk] at fills ⊢
    rw [fills, List.foldl_cons, List.foldl_nil, onFill]
    simp only [bound]
    refine ⟨⟨?_, ?_, ?_⟩, MarketMakingStrategy.onFill_cfg, ?_⟩
    · rw [MarketMakingStrategy.onFill_cfg]
      exact consistent.sized
    · rw [MarketMakingStrategy.onFill_cfg, MarketMakingStrategy.onFill_nextOrderId, quotes]
      exact after
    · intro symbol
      rw [inventory, consistent.level symbol]
      by_cases here : symbol = ev.symbol.asU64
      · simp [here, PnlAccountant.onFill]
      · simp only [if_neg here, add_zero, PnlAccountant.onFill, StateTable.state_set_of_ne here]
    · intro key other p left
      rw [quotes] at left
      exact Quotes.of_settle strikes.quoted left
  · obtain ⟨fills, -, after⟩ := consistent.mirrors.unstruck
      fun side q held => strikes ⟨side, q, held⟩
    simp only [onMarketEvent, desk] at fills ⊢
    rw [fills]
    exact ⟨⟨consistent.sized, after, consistent.level⟩, rfl, fun _ _ _ left => left⟩

theorem Consistent.step (consistent : Consistent r) (sorts : SideSorts)
    (letter : BookEvent × Nat) : Consistent (r.step sorts letter) := by
  obtain ⟨⟨sized, mirrors, level⟩, -⟩ :=
    (consistent.merged sorts letter.1).matched letter.1 letter.2
  refine ⟨sized, mirrors, fun symbol => ?_⟩
  simp only [BacktestRunner.step, PnlAccountant.state_marked]
  exact level symbol

theorem run_consistent (sorts : SideSorts) {strategyCfg : MarketMakingStrategy.Config D}
    (pnlCfg : PnlAccountant.Config) (sized : 0 < strategyCfg.quoteSize)
    (events : List (BookEvent × Nat)) :
    Consistent (events.foldl (BacktestRunner.step sorts)
      (create strategyCfg pnlCfg : BacktestRunner D layout)) :=
  Run.invariant (P := Consistent)
    (fun _ letter consistent => Consistent.step consistent sorts letter) events
    (create_consistent pnlCfg sized)

/-- What the parts of the backtest say of one symbol: the inventory is the position, and the
orders that rest in the engine are the active quotes, bound to the symbol in both maps. -/
structure Aligned (r : BacktestRunner D layout) (symbol : UInt64) : Prop where
  inventory : (r.strategy.bySymbol.state symbol).inventory = (r.pnl.bySymbol.state symbol).position
  rests : ∀ side, let order := (r.strategy.bySymbol.state symbol).quote side
    if order.active then
      (∃ qty tsNs, 0 < qty ∧
        r.engine.orders symbol side = [⟨order.orderId, side, order.price, qty, tsNs⟩]) ∧
      r.engine.orderToSymbol order.orderId = some symbol ∧
      r.orderToSymbol order.orderId = some symbol
    else r.engine.orders symbol side = []

theorem Consistent.aligned (consistent : Consistent r) (symbol : UInt64) : Aligned r symbol where
  inventory := consistent.level symbol
  rests := by
    intro side order
    have rests := consistent.mirrors.rests symbol side
    by_cases active : order.active = true
    · have quoted : r.strategy.quotes symbol side = some ⟨order.orderId, order.price⟩ :=
        if_pos active
      obtain ⟨qty, tsNs, positive, -, resting⟩ := consistent.mirrors.order quoted
      rw [if_pos active]
      refine ⟨⟨qty, tsNs, positive, resting⟩, ?_, consistent.mirrors.bound _ _ _ quoted⟩
      exact consistent.mirrors.sound.bound symbol side ⟨order.orderId, side, order.price, qty, tsNs⟩
        (resting ▸ List.mem_singleton_self _)
    · have idle : r.strategy.quotes symbol side = none := if_neg active
      rw [idle] at rests
      rw [if_neg active]
      exact rests

/-- After every tape, and so after every event of it, the parts of the backtest agree on every
symbol, and whatever a next print fills is heard by the strategy. -/
theorem components_consistent (sorts : SideSorts) (strategyCfg : MarketMakingStrategy.Config D)
    (pnlCfg : PnlAccountant.Config) (sized : 0 < strategyCfg.quoteSize)
    (events : List (BookEvent × Nat)) :
    let r := events.foldl (BacktestRunner.step sorts)
      (create strategyCfg pnlCfg : BacktestRunner D layout)
    (∀ symbol, Aligned r symbol) ∧ ∀ ev budget,
      let merged := r.onMergedEvent sorts ev
      (merged.engine.onMarketEvent ev budget).2 = [] ∨
        ∃ fill, (merged.engine.onMarketEvent ev budget).2 = [fill] ∧
          Heard merged ev.symbol.asU64 fill := by
  have consistent : Consistent (events.foldl (BacktestRunner.step sorts)
      (create strategyCfg pnlCfg : BacktestRunner D layout)) :=
    run_consistent sorts pnlCfg sized events
  exact ⟨consistent.aligned, fun ev budget => (consistent.merged sorts ev).heard ev budget⟩

/-- A market of two sides, and a print that takes part of the bid quoted in it. -/
def partFilledBid : List (BookEvent × Nat) :=
  [({ type := .add, side := .buy, orderId := 1, qty := 50, price := 100, exchangeTsNs := 1 }, 0),
    ({ type := .add, side := .sell, orderId := 2, qty := 50, price := 104, exchangeTsNs := 2 }, 0),
    ({ type := .trade, side := .sell, qty := 8, price := 101, exchangeTsNs := 3 }, 4)]

theorem components_consistent_partFilledBid :
    let r := partFilledBid.foldl (BacktestRunner.step .insertion)
      (create {} {} : BacktestRunner ℚ OrderBookEngine.orderLayout)
    (∀ symbol, Aligned r symbol) ∧ ∀ ev budget,
      let merged := r.onMergedEvent .insertion ev
      (merged.engine.onMarketEvent ev budget).2 = [] ∨
        ∃ fill, (merged.engine.onMarketEvent ev budget).2 = [fill] ∧
          Heard merged ev.symbol.asU64 fill :=
  components_consistent .insertion {} {} (by decide) partFilledBid

example : (partFilledBid.foldl (BacktestRunner.step .insertion)
    (create {} {} : BacktestRunner ℚ OrderBookEngine.orderLayout)).pnl.totalFills = 1 := by
  decide +kernel

end BacktestRunner

end FeedHandler
