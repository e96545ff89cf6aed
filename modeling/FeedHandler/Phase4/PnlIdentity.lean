import Mathlib.Tactic.FieldSimp
import Mathlib.Tactic.LinearCombination
import FeedHandler.Phase4.PnlAccountant

/-! The accounting identity of one symbol, and what the equity is worth against it. A fill
that turns the position around prices what it opens only if that is more than what it
closes; a smaller turn keeps the cost of the position that is gone. -/
namespace FeedHandler

namespace PnlAccountant

variable {st : SymbolState} {fill : Fill}

/-- Realized profit is cash plus the position at its cost, and no position has no cost. -/
def Balanced (st : SymbolState) : Prop :=
  st.realizedPnl = st.cash + st.avgCost * st.position ∧ (st.position = 0 → st.avgCost = 0)

instance (st : SymbolState) : Decidable (Balanced st) := inferInstanceAs (Decidable (_ ∧ _))

/-- The fill turns the position around and opens at most as much as it closes. -/
def HalfFlip (st : SymbolState) (fill : Fill) : Prop :=
  ¬ Extends st.position fill.signedQty ∧ st.position.natAbs < fill.qty ∧
    fill.qty ≤ 2 * st.position.natAbs

instance (st : SymbolState) (fill : Fill) : Decidable (HalfFlip st fill) :=
  inferInstanceAs (Decidable (_ ∧ _))

theorem signedQty_natAbs (fill : Fill) : fill.signedQty.natAbs = fill.qty := by
  simp only [Fill.signedQty]
  cases fill.side
  · exact Int.natAbs_natCast fill.qty
  · exact (Int.natAbs_neg _).trans (Int.natAbs_natCast fill.qty)

theorem applyFill_cash : (applyFill st fill).cash = st.cash - fill.price * fill.signedQty := by
  simp only [applyFill, Fill.signedQty]
  cases fill.side
  · push_cast
    ring
  · push_cast
    ring

@[simp] theorem applyFill_position :
    (applyFill st fill).position = st.position + fill.signedQty := by
  simp only [applyFill, applyTrade]
  split <;> rfl

theorem applyFill_flat (flat : st.position + fill.signedQty = 0) :
    (applyFill st fill).avgCost = 0 := by
  simp only [applyFill, applyTrade]
  split <;> rfl

theorem natAbs_cast_of_nonneg {n : Int} (nonneg : 0 ≤ n) : (n.natAbs : ℚ) = n := by
  rw [Nat.cast_natAbs, abs_of_nonneg nonneg]

theorem natAbs_cast_of_nonpos {n : Int} (nonpos : n ≤ 0) : (n.natAbs : ℚ) = -n := by
  rw [Nat.cast_natAbs, abs_of_nonpos nonpos, Int.cast_neg]

/-- A position and a fill that extends it share one sign. -/
theorem Extends.sign {position signedQty : Int} (same : Extends position signedQty)
    (holding : position + signedQty ≠ 0) :
    ∃ sign : ℚ, sign ≠ 0 ∧ (position.natAbs : ℚ) = sign * position ∧
      (signedQty.natAbs : ℚ) = sign * signedQty ∧
      ((position + signedQty).natAbs : ℚ) = sign * (position + signedQty) := by
  rcases Int.lt_or_gt_of_ne holding with short | long
  · have before : position ≤ 0 := by rcases same with flat | alike <;> omega
    refine ⟨-1, by norm_num, ?_, ?_, ?_⟩
    · rw [natAbs_cast_of_nonpos before, neg_one_mul]
    · rw [natAbs_cast_of_nonpos (by rcases same with flat | alike <;> omega), neg_one_mul]
    · rw [natAbs_cast_of_nonpos (le_of_lt short), neg_one_mul, Int.cast_add]
  · have before : 0 ≤ position := by rcases same with flat | alike <;> omega
    refine ⟨1, by norm_num, ?_, ?_, ?_⟩
    · rw [natAbs_cast_of_nonneg before, one_mul]
    · rw [natAbs_cast_of_nonneg (by rcases same with flat | alike <;> omega), one_mul]
    · rw [natAbs_cast_of_nonneg (le_of_lt long), one_mul, Int.cast_add]

/-- Adding to a position realizes nothing. -/
theorem applyFill_unrealized (same : Extends st.position fill.signedQty) :
    (applyFill st fill).realizedPnl = st.realizedPnl := by
  simp only [applyFill, applyTrade, if_pos same]

/-- Adding to a position averages the costs. -/
theorem applyFill_average (same : Extends st.position fill.signedQty)
    (holding : st.position + fill.signedQty ≠ 0) :
    (applyFill st fill).avgCost =
      (st.avgCost * st.position + fill.price * fill.signedQty) /
        (st.position + fill.signedQty) := by
  obtain ⟨sign, nonzero, before, change, after⟩ := same.sign holding
  have nonflat : ((st.position : ℚ) + fill.signedQty) ≠ 0 := by exact_mod_cast holding
  simp only [applyFill, applyTrade, if_pos same, if_neg holding]
  rw [← signedQty_natAbs fill, before, change, after]
  field_simp

/-- Adding to a position adds to its cost. -/
theorem applyFill_extends (same : Extends st.position fill.signedQty) :
    (applyFill st fill).avgCost * (applyFill st fill).position =
      st.avgCost * st.position + fill.price * fill.signedQty := by
  rw [applyFill_position, Int.cast_add]
  by_cases holding : st.position + fill.signedQty = 0
  · obtain ⟨before, none⟩ : st.position = 0 ∧ fill.signedQty = 0 := by
      rcases same with flat | alike <;> omega
    rw [applyFill_flat holding, before, none]
    norm_num
  · have nonflat : ((st.position : ℚ) + fill.signedQty) ≠ 0 := by exact_mod_cast holding
    rw [applyFill_average same holding, div_mul_cancel₀ _ nonflat]

/-- The part of the position that a fill against it closes. -/
def closedQty (st : SymbolState) (fill : Fill) : Int :=
  if fill.qty ≤ st.position.natAbs then -fill.signedQty else st.position

/-- A fill against the position realizes the difference to its cost on what it closes. -/
theorem applyFill_realized (against : ¬ Extends st.position fill.signedQty) :
    (applyFill st fill).realizedPnl =
      st.realizedPnl + (fill.price - st.avgCost) * closedQty st fill := by
  have size := signedQty_natAbs fill
  obtain ⟨holding, opposite⟩ := not_or.mp against
  simp only [applyFill, applyTrade, if_neg against]
  congr 1
  by_cases long : st.position > 0
  · have closed : ((min st.position.natAbs fill.signedQty.natAbs : Nat) : Int) =
        closedQty st fill := by
      simp only [closedQty]
      split <;> omega
    rw [if_pos long, ← closed, Int.cast_natCast]
  · have closed : ((min st.position.natAbs fill.signedQty.natAbs : Nat) : Int) =
        -closedQty st fill := by
      simp only [closedQty]
      split <;> omega
    have amount : ((min st.position.natAbs fill.signedQty.natAbs : Nat) : ℚ) =
        -closedQty st fill := by
      rw [← Int.cast_natCast, closed, Int.cast_neg]
    rw [if_neg long, amount]
    ring

/-- A fill against the position leaves its cost, unless it opens more than it closes. -/
theorem applyFill_cost (against : ¬ Extends st.position fill.signedQty)
    (holding : st.position + fill.signedQty ≠ 0) :
    (applyFill st fill).avgCost =
      if fill.qty > 2 * st.position.natAbs then (fill.price : ℚ) else st.avgCost := by
  have size := signedQty_natAbs fill
  obtain ⟨held, opposite⟩ := not_or.mp against
  simp only [applyFill, applyTrade, if_neg against, if_neg holding]
  refine if_congr ?_ rfl rfl
  constructor <;> intro turned <;> omega

/-- What the realized profit is off from cash plus the position at its cost. -/
def imbalance (st : SymbolState) : ℚ := st.realizedPnl - (st.cash + st.avgCost * st.position)

/-- A fill against the position changes the imbalance only where it carries the cost of the
closed position over to the one it opens. -/
theorem imbalance_against (against : ¬ Extends st.position fill.signedQty) :
    imbalance (applyFill st fill) = imbalance st +
      if HalfFlip st fill then
        ((fill.price : ℚ) - st.avgCost) * (st.position + fill.signedQty) else 0 := by
  have size := signedQty_natAbs fill
  obtain ⟨holding, opposite⟩ := not_or.mp against
  simp only [imbalance, applyFill_cash, applyFill_position, applyFill_realized against,
    Int.cast_add]
  by_cases closes : st.position + fill.signedQty = 0
  · have whole : (st.position : ℚ) + fill.signedQty = 0 := by exact_mod_cast closes
    have closing : ¬ HalfFlip st fill := fun turned => absurd turned.2.1 (by omega)
    rw [if_neg closing, applyFill_flat closes, closedQty, if_pos (by omega), Int.cast_neg]
    linear_combination st.avgCost * whole
  · rw [applyFill_cost against closes, closedQty]
    by_cases reduces : fill.qty ≤ st.position.natAbs
    · have reducing : ¬ HalfFlip st fill := fun turned => absurd turned.2.1 (by omega)
      rw [if_neg reducing, if_pos reduces, if_neg (by omega), Int.cast_neg]
      ring
    · rw [if_neg reduces]
      by_cases more : fill.qty > 2 * st.position.natAbs
      · have turning : ¬ HalfFlip st fill := fun turned => absurd turned.2.2 (by omega)
        rw [if_neg turning, if_pos more]
        ring
      · have half : HalfFlip st fill := ⟨against, by omega, by omega⟩
        rw [if_pos half, if_neg more]
        ring

theorem applyFill_imbalance : imbalance (applyFill st fill) = imbalance st +
    if HalfFlip st fill then
      ((fill.price : ℚ) - st.avgCost) * (st.position + fill.signedQty) else 0 := by
  by_cases same : Extends st.position fill.signedQty
  · rw [if_neg (fun turned => turned.1 same)]
    simp only [imbalance, applyFill_unrealized same, applyFill_extends same, applyFill_cash]
    ring
  · exact imbalance_against same

theorem balanced_iff_imbalance (flat : st.position = 0 → st.avgCost = 0) :
    Balanced st ↔ imbalance st = 0 := by
  rw [Balanced, and_iff_left flat, imbalance, sub_eq_zero]

/-- The accounts stay balanced exactly over the fills that do not carry the cost of a
closed position over to the one they open. -/
theorem applyFill_balanced (held : Balanced st) :
    Balanced (applyFill st fill) ↔ ¬ (HalfFlip st fill ∧ (fill.price : ℚ) ≠ st.avgCost) := by
  have flat : (applyFill st fill).position = 0 → (applyFill st fill).avgCost = 0 := by
    rw [applyFill_position]
    exact applyFill_flat
  rw [balanced_iff_imbalance flat, applyFill_imbalance,
    (balanced_iff_imbalance held.2).mp held, zero_add]
  by_cases half : HalfFlip st fill
  · have size := signedQty_natAbs fill
    have turned : (st.position : ℚ) + fill.signedQty ≠ 0 := by
      have after : st.position + fill.signedQty ≠ 0 := by
        have more := half.2.1
        omega
      exact_mod_cast after
    rw [if_pos half, and_iff_right half, not_ne_iff, mul_eq_zero, or_iff_left turned,
      sub_eq_zero]
  · rw [if_neg half]
    exact iff_of_true rfl (fun turned => half turned.1)

/-- A call of `on_fill`. -/
structure FillCall where
  symbol : UInt64
  fill : Fill
  taker : Bool := false

def fillStep (a : PnlAccountant) (call : FillCall) : PnlAccountant :=
  a.onFill call.symbol call.fill call.taker

/-- The fill carries the cost of the position it closes over to the one it opens. -/
def Miscosts (a : PnlAccountant) (call : FillCall) : Prop :=
  let st := a.bySymbol.state call.symbol
  HalfFlip st call.fill ∧ (call.fill.price : ℚ) ≠ st.avgCost

def AllBalanced (a : PnlAccountant) : Prop := ∀ symbol, Balanced (a.bySymbol.state symbol)

theorem create_balanced (cfg : Config) : AllBalanced { cfg } := fun _ => by
  simp only [Balanced, StateTable.state_empty]
  norm_num

theorem fillStep_balanced {a : PnlAccountant} {call : FillCall} (held : AllBalanced a) :
    AllBalanced (fillStep a call) ↔ ¬ Miscosts a call := by
  rw [Miscosts, ← applyFill_balanced (held call.symbol)]
  constructor
  · intro all
    have own := all call.symbol
    rwa [fillStep, onFill, StateTable.state_set_self] at own
  · intro own symbol
    rw [fillStep, onFill]
    by_cases here : symbol = call.symbol
    · rw [here, StateTable.state_set_self]
      exact own
    · rw [StateTable.state_set_of_ne here]
      exact held symbol

/-- Over a run of fills of any symbols, the identity holds after every fill exactly if no
fill carries a cost over. -/
theorem balanced_iff (cfg : Config) (calls : List FillCall)
    (some : ∀ call ∈ calls, 0 < call.fill.qty) :
    Run.Along fillStep (fun a call => AllBalanced (fillStep a call)) { cfg } calls ↔
      Run.Along fillStep (fun a call => ¬ Miscosts a call) { cfg } calls :=
  (Run.along_of_forall { cfg } calls some).after_iff
    (fun _ _ held _ => fillStep_balanced held) (create_balanced cfg)

/-- Ten bought at 100 and fifteen sold at 110. -/
def shortTurn : List FillCall :=
  [⟨0, { orderId := 1, side := .buy, price := 100, qty := 10 }, false⟩,
    ⟨0, { orderId := 2, side := .sell, price := 110, qty := 15 }, false⟩]

theorem balanced_iff_shortTurn :
    Run.Along fillStep (fun a call => AllBalanced (fillStep a call)) {} shortTurn ↔
      Run.Along fillStep (fun a call => ¬ Miscosts a call) {} shortTurn :=
  balanced_iff {} shortTurn (by decide)

/-- The five sold short stay at the cost of the ten that were held. -/
theorem shortTurn_unbalanced :
    ¬ Run.Along fillStep (fun a call => AllBalanced (fillStep a call)) {} shortTurn := by
  intro balanced
  have last := balanced.2.1 0
  revert last
  decide +kernel

end PnlAccountant

end FeedHandler
