import Mathlib.Data.List.Dedup
import FeedHandler.Phase4.StrategyQuotes
import FeedHandler.Research.StrategyAgreement

/-! The research engine as a maker of quotes. Its states are those of a phase 4 strategy,
and what that strategy does to its quotes the engine does to its own. -/
namespace FeedHandler

namespace StrategyEngine

variable {D : Type*} [Binary64 D] {s : MarketMakingStrategy D} {t : StrategyEngine D}
  {symbol : UInt64} {side : OrderSide} {q : StrategyQuote}

/-- The configuration with the same values. -/
def Config.asPhase4 (cfg : Config D) : MarketMakingStrategy.Config D where
  halfSpreadTicks := cfg.halfSpreadTicks
  quoteSize := cfg.quoteSize
  maxInventory := cfg.maxInventory
  inventorySkewTicksPerUnit := cfg.inventorySkewTicksPerUnit
  ofiSkewCoef := cfg.ofiSkewCoef
  requoteThresholdTicks := cfg.requoteThresholdTicks
  cancelReplaceCooldownNs := cfg.cancelReplaceCooldownNs

theorem lookup_of_absent {states : List (UInt64 × SymbolState)}
    (absent : symbol ∉ (states.map Prod.fst).dedup) : states.lookup symbol = none := by
  rw [List.mem_dedup] at absent
  induction states with
  | nil => rfl
  | cons entry rest ih =>
    rw [List.map_cons, List.mem_cons, not_or] at absent
    rw [lookup_entry, if_neg absent.1]
    exact ih absent.2

/-- The phase 4 strategy in the same state. -/
def asPhase4 (t : StrategyEngine D) : MarketMakingStrategy D where
  cfg := t.cfg.asPhase4
  bySymbol :=
    { keys := (t.states.map Prod.fst).dedup
      state := t.stateOf
      nodup := List.nodup_dedup _
      untouched := by
        intro symbol absent
        rw [stateOf, lookup_of_absent absent]
        rfl }
  nextOrderId := t.nextOrderId

theorem agrees_asPhase4 (t : StrategyEngine D) : Agrees t.asPhase4 t := ⟨rfl, rfl, rfl⟩

def quotes (t : StrategyEngine D) : Quotes :=
  fun symbol side => ((t.stateOf symbol).quote side).asQuote

def replacement (t : StrategyEngine D) (fv : FeatureVector D) : Option Replacement :=
  MarketMakingStrategy.replacementOf t.cfg.asPhase4 (t.stateOf fv.symbolU64) fv

theorem Agrees.quotes (agrees : Agrees s t) : t.quotes = s.quotes := by
  funext symbol side
  simp only [StrategyEngine.quotes, MarketMakingStrategy.quotes, agrees.states]

theorem onFeature_cfg (t : StrategyEngine D) (fv : FeatureVector D) :
    (t.onFeature fv).1.cfg = t.cfg := by
  have after := (t.agrees_asPhase4.onFeature fv).1.cfg
  rw [MarketMakingStrategy.onFeature_cfg] at after
  exact after

theorem onFeature_move (t : StrategyEngine D) (fv : FeatureVector D) :
    Move t.cfg.quoteSize t.quotes t.nextOrderId (t.replacement fv)
      ((t.onFeature fv).2.map OrderIntent.asCall) (t.onFeature fv).1.quotes
      (t.onFeature fv).1.nextOrderId := by
  obtain ⟨after, calls⟩ := t.agrees_asPhase4.onFeature fv
  rw [calls, after.quotes, after.next]
  exact t.asPhase4.onFeature_move fv

theorem onFill_cfg (t : StrategyEngine D) (symbol : UInt64) (fill : Fill) :
    (t.onFill symbol fill).cfg = t.cfg := (onFill_stateOf t symbol fill).1

theorem onFill_nextOrderId (t : StrategyEngine D) (symbol : UInt64) (fill : Fill) :
    (t.onFill symbol fill).nextOrderId = t.nextOrderId := (onFill_stateOf t symbol fill).2.1

/-- A fill of a quote takes it once it is filled up. -/
theorem onFill_quote (fill : Fill) (quoted : t.quotes symbol side = some q)
    (same : fill.orderId = q.orderId)
    (unique : ∀ key other r, t.quotes key other = some r → r.orderId = q.orderId →
      key = symbol ∧ other = side) :
    (t.onFill symbol fill).quotes = t.quotes.settle symbol side q fill.isPartial := by
  have holds := MarketMakingStrategy.holds_iff (s := t.asPhase4) fill quoted same unique
  have only : ∀ key, (t.asPhase4.bySymbol.state key).Holds fill → key = symbol := fun key held =>
    held.elim (fun bid => ((holds key .buy).mp bid).1) (fun ask => ((holds key .sell).mp ask).1)
  have after : Agrees (t.asPhase4.onFill fill) (t.onFill symbol fill) :=
    t.agrees_asPhase4.onFill only
  rw [after.quotes]
  exact (MarketMakingStrategy.onFill_quote (s := t.asPhase4) fill quoted same unique).1

end StrategyEngine

end FeedHandler
