import FeedHandler.Phase4.PnlAccountant
import FeedHandler.Phase4.QuoteMirror

/-! The market-making strategy as a maker of quotes: its calls lead from quotes to quotes,
and a fill takes the quote that it fills up. -/
namespace FeedHandler

namespace MarketMakingStrategy

variable {D : Type*} [Binary64 D]

def SideOrder.asQuote (order : SideOrder) : Option StrategyQuote :=
  if order.active then some ⟨order.orderId, order.price⟩ else none

def quotes (s : MarketMakingStrategy D) : Quotes :=
  fun symbol side => ((s.bySymbol.state symbol).quote side).asQuote

variable {s : MarketMakingStrategy D} {symbol : UInt64} {side : OrderSide} {q : StrategyQuote}

theorem asQuote_eq_some {order : SideOrder} :
    order.asQuote = some q ↔
      order.active = true ∧ order.orderId = q.orderId ∧ order.price = q.price := by
  obtain ⟨id, price, active⟩ := order
  obtain ⟨own, at_⟩ := q
  cases active <;> simp [SideOrder.asQuote]

theorem cancel_eq (order : SideOrder) (tsNs : UInt64) :
    order.cancel tsNs = cancelCalls order.asQuote tsNs := by
  simp only [SideOrder.cancel, SideOrder.asQuote]
  split <;> rfl

/-- The quotes that a feature vector replaces. -/
def replacementOf (cfg : Config D) (st : SymbolState) (fv : FeatureVector D) : Option Replacement :=
  if refreshes cfg st fv then
    some ⟨fv.symbolU64, some (centerTicks cfg st fv - cfg.halfSpreadTicks),
      some (centerTicks cfg st fv + cfg.halfSpreadTicks), fv.exchangeTsNs⟩
  else none

def replacement (s : MarketMakingStrategy D) (fv : FeatureVector D) : Option Replacement :=
  replacementOf s.cfg (s.bySymbol.state fv.symbolU64) fv

theorem onFeature_move (s : MarketMakingStrategy D) (fv : FeatureVector D) :
    Move s.cfg.quoteSize s.quotes s.nextOrderId (s.replacement fv) (s.onFeature fv).2
      (s.onFeature fv).1.quotes (s.onFeature fv).1.nextOrderId := by
  cases moves : refreshes s.cfg (s.bySymbol.state fv.symbolU64) fv with
  | false =>
    obtain ⟨calls, kept, next⟩ := onFeature_quiet moves
    rw [replacement, replacementOf, if_neg (by simp [moves])]
    refine ⟨calls, ?_, next⟩
    funext key other
    simp only [quotes, kept, Option.map_none, Option.getD_none]
  | true =>
    obtain ⟨calls, kept, next⟩ := onFeature_requotes moves
    rw [replacement, replacementOf, if_pos moves]
    refine ⟨?_, ?_, next⟩
    · rw [calls, cancel_eq, cancel_eq, List.append_assoc]
      simp only [Option.map_some, Option.getD_some, Replacement.calls, List.append_assoc]
      rfl
    · funext key other
      simp only [quotes, kept, Function.update_apply, Option.map_some, Option.getD_some,
        Replacement.quotes]
      split
      · cases other <;> rfl
      · rfl

/-- Features change no inventory. -/
theorem onFeature_inventory (s : MarketMakingStrategy D) (fv : FeatureVector D) (key : UInt64) :
    ((s.onFeature fv).1.bySymbol.state key).inventory = (s.bySymbol.state key).inventory := by
  cases moves : refreshes s.cfg (s.bySymbol.state fv.symbolU64) fv with
  | false => rw [(onFeature_quiet moves).2.1]
  | true =>
    rw [(onFeature_requotes moves).2.1, Function.update_apply]
    split
    · next here =>
      rw [here]
      rfl
    · rfl

/-- A fill of a quote is held by the symbol of the quote alone, where no other quote has the id. -/
theorem holds_iff (fill : Fill) (quoted : s.quotes symbol side = some q)
    (same : fill.orderId = q.orderId)
    (unique : ∀ key other r, s.quotes key other = some r → r.orderId = q.orderId →
      key = symbol ∧ other = side) (key : UInt64) (other : OrderSide) :
    ((s.bySymbol.state key).quote other).isFilledBy fill = true ↔ key = symbol ∧ other = side := by
  constructor
  · intro filled
    obtain ⟨active, own⟩ := Bool.and_eq_true_iff.mp filled
    refine unique key other ⟨_, _⟩ (asQuote_eq_some.mpr ⟨active, rfl, rfl⟩) ?_
    exact (beq_iff_eq.mp own).trans same
  · rintro ⟨rfl, rfl⟩
    obtain ⟨active, own, -⟩ := asQuote_eq_some.mp quoted
    exact Bool.and_eq_true_iff.mpr ⟨active, beq_iff_eq.mpr (own.trans same.symm)⟩

/-- A fill of a quote changes the inventory of its symbol, and takes the quote once it is
filled up. -/
theorem onFill_quote (fill : Fill) (quoted : s.quotes symbol side = some q)
    (same : fill.orderId = q.orderId)
    (unique : ∀ key other r, s.quotes key other = some r → r.orderId = q.orderId →
      key = symbol ∧ other = side) :
    (s.onFill fill).quotes = s.quotes.settle symbol side q fill.isPartial ∧
      ∀ key, ((s.onFill fill).bySymbol.state key).inventory =
        (s.bySymbol.state key).inventory + if key = symbol then fill.signedQty else 0 := by
  have own := holds_iff fill quoted same unique
  have holds : (s.bySymbol.state symbol).Holds fill := by
    cases side
    · exact Or.inl ((own symbol .buy).mpr ⟨rfl, rfl⟩)
    · exact Or.inr ((own symbol .sell).mpr ⟨rfl, rfl⟩)
  have only : ∀ key, (s.bySymbol.state key).Holds fill → key = symbol := fun key held =>
    held.elim (fun bid => ((own key .buy).mp bid).1) (fun ask => ((own key .sell).mp ask).1)
  have kept := onFill_held holds only
  refine ⟨Quotes.eq_settle ?_ fun key other elsewhere => ?_, ?_⟩
  · have filled := (own symbol side).mpr ⟨rfl, rfl⟩
    rw [quotes, kept, Function.update_self, quote_afterFill, SideOrder.afterFill, filled]
    cases fill.isPartial
    · rfl
    · exact quoted
  · have free : ((s.bySymbol.state key).quote other).isFilledBy fill = false :=
      Bool.eq_false_iff.mpr fun filled => elsewhere ((own key other).mp filled)
    simp only [quotes, kept, Function.update_apply]
    split
    · next here =>
      rw [quote_afterFill, ← here, SideOrder.afterFill, free, if_neg (by simp)]
    · rfl
  · intro key
    rw [kept, Function.update_apply]
    split
    · next here =>
      rw [here]
      simp only [applyFill, Fill.signedQty]
      cases fill.side
      · rfl
      · exact Int.sub_eq_add_neg
    · exact (add_zero _).symm

end MarketMakingStrategy

end FeedHandler
