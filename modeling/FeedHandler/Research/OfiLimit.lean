import FeedHandler.Lib.Run
import FeedHandler.Research.ExperimentDesk

/-! The position limit of the order flow strategy. It is checked when the strategy quotes;
what keeps the inventory within it afterwards is that inventory and open quantity together
stay within it. -/
namespace FeedHandler

namespace ExperimentState

open SimMatchingEngine (SideSorts initial_orders)

variable {D : Type*} [Binary64 D] {layout : ProbeLayout UInt64} {x : ExperimentState D layout}
  {cfg : OfiStrategy.Config D}

def inventory (x : ExperimentState D layout) (symbol : UInt64) : Int :=
  (x.ofiStrategy.bySymbol.state symbol).inventory

/-- The largest position: one below the limit, and one quote more. -/
def limit (cfg : OfiStrategy.Config D) : Int := cfg.maxPosition - 1 + cfg.quoteSize

/-- Inventory and open quantity are within the limit on both sides. -/
structure Limited (cfg : OfiStrategy.Config D) (x : ExperimentState D layout) : Prop where
  held : Held x
  kind : x.strategyKind = .ofi
  cfg_eq : x.ofiStrategy.cfg = cfg
  above : ∀ symbol, x.inventory symbol + outstanding x.engine symbol .buy ≤ limit cfg
  below : ∀ symbol, -limit cfg ≤ x.inventory symbol - outstanding x.engine symbol .sell

theorem quotes_ofi (kind : x.strategyKind = .ofi) :
    x.quotes = x.ofiStrategy.quotes ∧ x.quoteSize = x.ofiStrategy.cfg.quoteSize ∧
      x.nextOrderId = x.ofiStrategy.nextOrderId := by
  simp only [quotes, quoteSize, nextOrderId, kind, and_self]

theorem strikeFill_signedQty (ev : BookEvent) (budget : Nat) (side : OrderSide) (q : StrategyQuote)
    (qty : Nat) : (strikeFill ev budget side q qty).signedQty =
      if side = .buy then ((min qty budget : Nat) : Int) else -((min qty budget : Nat) : Int) := by
  cases side <;> rfl

/-- What rests on a side after the quoting rested there before, or is at most a quote, and
that only if the side is quoted anew. -/
theorem Held.outstanding_quoted (held : Held x) (sorts : SideSorts) (ev : BookEvent)
    (symbol : UInt64) (side : OrderSide) :
    let after := outstanding (x.quoted sorts ev).engine symbol side
    after = outstanding x.engine symbol side ∨ after = 0 ∨
      (after ≤ x.quoteSize ∧ ∃ p ∈ x.replacement ev, symbol = p.symbol ∧ p.price side ≠ none) := by
  have after := held.quoted sorts ev
  obtain ⟨desk, size, moves⟩ := quoted_move held.sized held.mirrors.started sorts ev
  obtain ⟨-, frame⟩ := held.mirrors.move sorts held.sized moves
  by_cases apart : ∀ p ∈ x.replacement ev, symbol ≠ p.symbol
  · have orders := frame symbol side apart
    rw [← desk] at orders
    exact Or.inl (outstanding_congr orders)
  · simp only [not_forall, not_not, exists_prop] at apart
    obtain ⟨p, replaced, here⟩ := apart
    by_cases free : p.price side = none
    · refine Or.inr (Or.inl (after.mirrors.outstanding_none ?_))
      rw [moves.quotes_eq, replaced]
      simp only [Option.map_some, Option.getD_some, Replacement.quotes, here, if_true,
        Replacement.quote, free, Option.map_none]
    · have small := after.mirrors.outstanding_le symbol side
      exact Or.inr (Or.inr ⟨size ▸ small, p, replaced, here, free⟩)

theorem Limited.quoted (limited : Limited cfg x) (positive : 1 ≤ cfg.maxPosition)
    (sorts : SideSorts) (ev : BookEvent) : Limited cfg (x.quoted sorts ev) := by
  obtain ⟨held, kind, rfl, above, below⟩ := limited
  obtain ⟨-, chosen, ofi⟩ := quoted_ofi kind sorts ev
  obtain ⟨-, size, next⟩ := quotes_ofi kind
  have sized : 0 < x.ofiStrategy.cfg.quoteSize := size ▸ held.sized
  have started : 0 < x.ofiStrategy.nextOrderId := next ▸ held.mirrors.started
  have replaces : x.replacement ev = x.ofiStrategy.replacement ev := by
    simp only [replacement, kind]
  have same : ∀ symbol, (x.quoted sorts ev).inventory symbol = x.inventory symbol := by
    intro symbol
    rw [inventory, ofi]
    exact OfiStrategy.onEvent_inventory sized started ev symbol
  refine ⟨held.quoted sorts ev, chosen, by rw [ofi, OfiStrategy.onEvent_cfg], fun symbol => ?_,
    fun symbol => ?_⟩
  · have before := above symbol
    rw [same]
    rcases held.outstanding_quoted sorts ev symbol .buy with
      kept | none | ⟨small, p, replaced, rfl, priced⟩
    · rw [kept]
      exact before
    · omega
    · rw [replaces] at replaced
      have within : x.inventory p.symbol < x.ofiStrategy.cfg.maxPosition :=
        (OfiStrategy.replacement_sides positive replaced).1 priced
      rw [limit]
      omega
  · have before := below symbol
    rw [same]
    rcases held.outstanding_quoted sorts ev symbol .sell with
      kept | none | ⟨small, p, replaced, rfl, priced⟩
    · rw [kept]
      exact before
    · omega
    · rw [replaces] at replaced
      have within : -x.ofiStrategy.cfg.maxPosition < x.inventory p.symbol :=
        (OfiStrategy.replacement_sides positive replaced).2 priced
      rw [limit]
      omega

/-- A print moves quantity from the open orders to the inventory. -/
theorem Limited.matched (limited : Limited cfg x) (ev : BookEvent) (budget : Nat) :
    Limited cfg (x.onMarketEvent ev budget) := by
  obtain ⟨held, kind, rfl, above, below⟩ := limited
  by_cases strikes : ∃ side q, Strikes x.quotes ev budget side q
  · obtain ⟨side, q, strikes⟩ := strikes
    obtain ⟨qty, tsNs, struck, after, engine, chosen, -, -, ofi⟩ := held.struck strikes
    have own : x.quotes = x.ofiStrategy.quotes := (quotes_ofi kind).1
    have quoted := strikes.quoted
    have alone := held.mirrors.alone quoted
    rw [own] at quoted alone
    have inventory : ∀ key, (x.onMarketEvent ev budget).inventory key = x.inventory key +
        if key = ev.symbol.asU64 then (strikeFill ev budget side q qty).signedQty else 0 := by
      intro key
      rw [ExperimentState.inventory, ofi]
      exact (OfiStrategy.onFill_quote _ quoted rfl alone).2 key
    have moved := struck.outstanding
    simp only [desk] at moved
    refine ⟨after, chosen.trans kind, by rw [ofi, OfiStrategy.onFill_cfg], fun symbol => ?_,
      fun symbol => ?_⟩
    · have before := above symbol
      rw [moved symbol .buy] at before
      rw [inventory, engine, strikeFill_signedQty]
      by_cases here : symbol = ev.symbol.asU64 <;> cases side <;> simp [here] at before ⊢ <;> omega
    · have before := below symbol
      rw [moved symbol .sell] at before
      rw [inventory, engine, strikeFill_signedQty]
      by_cases here : symbol = ev.symbol.asU64 <;> cases side <;> simp [here] at before ⊢ <;> omega
  · have missed := fun side q strike => strikes ⟨side, q, strike⟩
    obtain ⟨after, engine, chosen, -, -, ofi⟩ := held.unstruck missed
    obtain ⟨-, orders, -⟩ := held.mirrors.unstruck missed
    have same : ∀ symbol side, outstanding (x.onMarketEvent ev budget).engine symbol side =
        outstanding x.engine symbol side := by
      intro symbol side
      rw [engine]
      exact outstanding_congr (orders symbol side)
    refine ⟨after, chosen.trans kind, by rw [ofi], fun symbol => ?_, fun symbol => ?_⟩
    · rw [inventory, ofi, same]
      exact above symbol
    · rw [inventory, ofi, same]
      exact below symbol

theorem Limited.onEvent (limited : Limited cfg x) (positive : 1 ≤ cfg.maxPosition)
    (sorts : SideSorts) (letter : BookEvent × Nat) : Limited cfg (x.onEvent sorts letter) := by
  by_cases rejects : (x.clock.onEvent letter.1).2 = false
  · obtain ⟨held, kind, cfg_eq, above, below⟩ := limited
    rw [onEvent_rejected rejects]
    exact ⟨⟨held.sized, held.mirrors⟩, kind, cfg_eq, above, below⟩
  · have ticked : Limited cfg (x.ticked letter.1) :=
      ⟨limited.held.ticked letter.1, limited.kind, limited.cfg_eq, limited.above, limited.below⟩
    obtain ⟨held, kind, cfg_eq, above, below⟩ :=
      (ticked.quoted positive sorts letter.1).matched letter.1 letter.2
    rw [onEvent_taken rejects]
    exact ⟨⟨held.sized, held.mirrors⟩, kind, cfg_eq, above, below⟩

theorem create_limited {cfg : ExperimentConfig D} (kind : cfg.strategyKind = .ofi)
    (positive : 1 ≤ cfg.ofiStrategy.maxPosition) (sized : 1 ≤ cfg.ofiStrategy.quoteSize) :
    Limited cfg.ofiStrategy (create cfg : ExperimentState D layout) where
  held := create_held (by
    have size := (quotes_ofi (x := (create cfg : ExperimentState D layout)) kind).2.1
    exact size ▸ sized)
  kind := kind
  cfg_eq := rfl
  above := by
    intro symbol
    have none : outstanding {} symbol .buy = 0 := by rw [outstanding, initial_orders]; rfl
    have flat : (create cfg : ExperimentState D layout).inventory symbol = 0 := rfl
    rw [flat, limit]
    simp only [create, none]
    omega
  below := by
    intro symbol
    have none : outstanding {} symbol .sell = 0 := by rw [outstanding, initial_orders]; rfl
    have flat : (create cfg : ExperimentState D layout).inventory symbol = 0 := rfl
    rw [flat, limit]
    simp only [create, none]
    omega

/-- Whatever the tape and the budgets, the order flow strategy never holds more than one quote
above the limit of its position. -/
theorem inventory_limit (sorts : SideSorts) (cfg : ExperimentConfig D)
    (kind : cfg.strategyKind = .ofi) (positive : 1 ≤ cfg.ofiStrategy.maxPosition)
    (sized : 1 ≤ cfg.ofiStrategy.quoteSize) (events : List (BookEvent × Nat)) (symbol : UInt64) :
    -(cfg.ofiStrategy.maxPosition - 1 + cfg.ofiStrategy.quoteSize) ≤
        (runOnEvents sorts cfg events : ExperimentState D layout).inventory symbol ∧
      (runOnEvents sorts cfg events : ExperimentState D layout).inventory symbol ≤
        cfg.ofiStrategy.maxPosition - 1 + cfg.ofiStrategy.quoteSize := by
  have limited :
      Limited cfg.ofiStrategy (runOnEvents sorts cfg events : ExperimentState D layout) :=
    Run.invariant (P := Limited cfg.ofiStrategy)
      (fun _ letter held => held.onEvent positive sorts letter) events
      (create_limited kind positive sized)
  have above := limited.above symbol
  have below := limited.below symbol
  rw [limit] at above below
  exact ⟨by omega, by omega⟩

/-- A market of two sides, and two prints into the bid that is quoted in it. -/
def soldInto : List (BookEvent × Nat) :=
  [({ type := .add, side := .buy, orderId := 1, qty := 50, price := 100, exchangeTsNs := 1 }, 0),
    ({ type := .add, side := .sell, orderId := 2, qty := 50, price := 104, exchangeTsNs := 2 }, 0),
    ({ type := .trade, side := .sell, qty := 8, price := 101, exchangeTsNs := 3 }, 4),
    ({ type := .trade, side := .sell, qty := 80, price := 100, exchangeTsNs := 4 }, 40)]

theorem inventory_limit_soldInto :
    -(1 - 1 + (10 : Nat) : Int) ≤ (runOnEvents .insertion
        { strategyKind := .ofi, ofiStrategy := { maxPosition := 1 } } soldInto :
          ExperimentState ℚ OrderBookEngine.orderLayout).inventory 0 ∧
      (runOnEvents .insertion { strategyKind := .ofi, ofiStrategy := { maxPosition := 1 } } soldInto :
        ExperimentState ℚ OrderBookEngine.orderLayout).inventory 0 ≤ 1 - 1 + (10 : Nat) :=
  inventory_limit .insertion { strategyKind := .ofi, ofiStrategy := { maxPosition := 1 } } rfl
    (by decide) (by decide) soldInto 0

example : (runOnEvents .insertion { strategyKind := .ofi, ofiStrategy := { maxPosition := 1 } }
    soldInto : ExperimentState ℚ OrderBookEngine.orderLayout).inventory 0 = 10 := by
  decide +kernel

end ExperimentState

end FeedHandler
