import FeedHandler.Phase4.PnlIdentity

/-! What the reported equity is worth. It adds the realized profit to a cash that already
holds it, so it is the value of the accounts only where the two cancel out. -/
namespace FeedHandler

namespace PnlAccountant

variable {D : Type*} {a : PnlAccountant} {cfg : Config}

inductive Call (D : Type*) where
  | fill (call : FillCall)
  | feature (fv : FeatureVector D)
  | tick (tsNs : UInt64)

def step (a : PnlAccountant) : Call D → PnlAccountant
  | .fill call => fillStep a call
  | .feature fv => a.onFeature fv
  | .tick tsNs => a.onTickEnd tsNs

/-- Without fees and rebates: none have come up. -/
structure Plain (a : PnlAccountant) : Prop where
  maker : a.cfg.makerRebatePerShare = 0
  taker : a.cfg.takerFeePerShare = 0
  fees : a.cumulativeFees = 0
  rebates : a.cumulativeRebates = 0

/-- Sampling a return leaves the accounts as they are. -/
theorem sampleReturn_accounts (a : PnlAccountant) (bucket : UInt64) (equity : ℚ) :
    (a.sampleReturn bucket equity).bySymbol = a.bySymbol ∧
      (a.sampleReturn bucket equity).cfg = a.cfg ∧
      (a.sampleReturn bucket equity).cumulativeFees = a.cumulativeFees ∧
      (a.sampleReturn bucket equity).cumulativeRebates = a.cumulativeRebates := by
  simp only [sampleReturn]
  split
  · exact ⟨rfl, rfl, rfl, rfl⟩
  · split <;> exact ⟨rfl, rfl, rfl, rfl⟩

theorem onTickEnd_bySymbol (a : PnlAccountant) (tsNs : UInt64) :
    (a.onTickEnd tsNs).bySymbol = a.bySymbol.map mark :=
  (sampleReturn_accounts _ _ _).1

theorem onTickEnd_charges (a : PnlAccountant) (tsNs : UInt64) :
    (a.onTickEnd tsNs).cfg = a.cfg ∧ (a.onTickEnd tsNs).cumulativeFees = a.cumulativeFees ∧
      (a.onTickEnd tsNs).cumulativeRebates = a.cumulativeRebates :=
  (sampleReturn_accounts _ _ _).2

theorem mark_init : mark {} = {} := by
  simp [mark]

theorem state_marked (a : PnlAccountant) (tsNs symbol : UInt64) :
    (a.onTickEnd tsNs).bySymbol.state symbol = mark (a.bySymbol.state symbol) := by
  rw [onTickEnd_bySymbol, StateTable.state_map mark_init]

/-- A feature vector changes no more than the midpoint of its symbol. -/
theorem onFeature_state (a : PnlAccountant) (fv : FeatureVector D) (symbol : UInt64) :
    ∃ mid known, (a.onFeature fv).bySymbol.state symbol =
      { a.bySymbol.state symbol with lastMid := mid, hasMid := known } := by
  simp only [onFeature]
  split
  · exact ⟨_, _, rfl⟩
  · by_cases here : symbol = fv.symbolU64
    · rw [here, StateTable.state_set_self]
      exact ⟨_, _, rfl⟩
    · rw [StateTable.state_set_of_ne here]
      exact ⟨_, _, rfl⟩

theorem create_plain (maker : cfg.makerRebatePerShare = 0) (taker : cfg.takerFeePerShare = 0) :
    Plain { cfg } where
  maker := maker
  taker := taker
  fees := rfl
  rebates := rfl

theorem Plain.fillStep (plain : Plain a) (call : FillCall) : Plain (fillStep a call) where
  maker := plain.maker
  taker := plain.taker
  fees := by
    simp only [PnlAccountant.fillStep, onFill, plain.taker, plain.fees, zero_mul, add_zero,
      ite_self]
  rebates := by
    simp only [PnlAccountant.fillStep, onFill, plain.maker, plain.rebates, zero_mul, add_zero,
      ite_self]

theorem Plain.onFeature (plain : Plain a) (fv : FeatureVector D) : Plain (a.onFeature fv) := by
  have rest : (a.onFeature fv).cfg = a.cfg ∧ (a.onFeature fv).cumulativeFees = a.cumulativeFees ∧
      (a.onFeature fv).cumulativeRebates = a.cumulativeRebates := by
    simp only [PnlAccountant.onFeature]
    split <;> exact ⟨rfl, rfl, rfl⟩
  exact ⟨rest.1 ▸ plain.maker, rest.1 ▸ plain.taker, rest.2.1.trans plain.fees,
    rest.2.2.trans plain.rebates⟩

theorem Plain.onTickEnd (plain : Plain a) (tsNs : UInt64) : Plain (a.onTickEnd tsNs) := by
  obtain ⟨cfg, fees, rebates⟩ := onTickEnd_charges a tsNs
  exact ⟨cfg ▸ plain.maker, cfg ▸ plain.taker, fees.trans plain.fees,
    rebates.trans plain.rebates⟩

theorem Plain.step (plain : Plain a) (call : Call D) : Plain (step a call) :=
  match call with
  | .fill call => plain.fillStep call
  | .feature fv => plain.onFeature fv
  | .tick tsNs => plain.onTickEnd tsNs

section Fills

def Call.fillOf (symbol : UInt64) : Call D → Option Fill
  | .fill call => if call.symbol = symbol then some call.fill else none
  | .feature _ => none
  | .tick _ => none

/-- The midpoint that the call brings for a symbol. -/
def Call.midOf (symbol : UInt64) : Call D → Option ℚ
  | .fill _ => none
  | .feature fv =>
    if fv.symbolU64 = symbol ∧ fv.nbboBidPrice ≠ 0 ∧ fv.nbboAskPrice ≠ 0 then
      some ((fv.nbboBidPrice.toNat + fv.nbboAskPrice.toNat) / 2)
    else none
  | .tick _ => none

def Call.tradedSymbol : Call D → Option UInt64
  | .fill call => some call.symbol
  | .feature _ => none
  | .tick _ => none

/-- The fills of a symbol, the latest first. -/
def fillsOf (calls : List (Call D)) (symbol : UInt64) : List Fill :=
  (calls.filterMap (Call.fillOf symbol)).reverse

/-- The latest midpoint of a symbol. -/
def midOf (calls : List (Call D)) (symbol : UInt64) : Option ℚ :=
  (calls.filterMap (Call.midOf symbol)).getLast?

def traded (calls : List (Call D)) : Finset UInt64 :=
  (calls.filterMap Call.tradedSymbol).toFinset

/-- The shares bought less the shares sold. -/
def netQty (fills : List Fill) : Int := (fills.map Fill.signedQty).sum

/-- What the fills of one side cost or earn. -/
def notional (side : OrderSide) (fills : List Fill) : ℚ :=
  ((fills.filter (fun fill => fill.side = side)).map (fun fill => (fill.price * fill.qty : ℚ))).sum

/-- What all sells earn less what all buys cost. -/
def netProceeds (fills : List Fill) : ℚ := notional .sell fills - notional .buy fills

/-- What the calls have made of the money: the proceeds and the shares at the midpoint. -/
def trueValue (calls : List (Call D)) : ℚ :=
  ∑ symbol ∈ traded calls, (netProceeds (fillsOf calls symbol) +
    netQty (fillsOf calls symbol) * (midOf calls symbol).getD 0)

/-- The average cost of the shares held after the fills. Fills on the side of the position
average; one against it leaves the cost, unless it opens more shares than it closes. -/
def heldCost : List Fill → ℚ
  | [] => 0
  | fill :: earlier =>
    let before := netQty earlier
    let after := before + fill.signedQty
    if after = 0 then 0
    else if 0 ≤ before * fill.signedQty then
      (heldCost earlier * before + fill.price * fill.signedQty) / after
    else if fill.qty ≤ 2 * before.natAbs then heldCost earlier
    else fill.price

/-- A fill against the position of more shares than are held and at most twice as many. -/
def HalfTurn (before : Int) (fill : Fill) : Prop :=
  before * fill.signedQty < 0 ∧ before.natAbs < fill.qty ∧ fill.qty ≤ 2 * before.natAbs

instance (before : Int) (fill : Fill) : Decidable (HalfTurn before fill) :=
  inferInstanceAs (Decidable (_ ∧ _))

/-- What the half turns among the fills carry over: the shares each of them opens, at its
price less the cost of the shares it closed. -/
def carried : List Fill → ℚ
  | [] => 0
  | fill :: earlier =>
    carried earlier + if HalfTurn (netQty earlier) fill then
      ((fill.price : ℚ) - heldCost earlier) * (netQty earlier + fill.signedQty) else 0

end Fills

section Append

variable (calls : List (Call D)) (call : Call D) (symbol : UInt64)

theorem fillsOf_append : fillsOf (calls ++ [call]) symbol =
    (call.fillOf symbol).toList ++ fillsOf calls symbol := by
  rw [fillsOf, List.filterMap_append, List.reverse_append, fillsOf]
  cases own : call.fillOf symbol <;> simp [own]

theorem midOf_append : midOf (calls ++ [call]) symbol =
    (call.midOf symbol).or (midOf calls symbol) := by
  rw [midOf, List.filterMap_append, List.getLast?_append, midOf]
  cases own : call.midOf symbol <;> simp [own]

variable {calls symbol} in
theorem fillsOf_untraded (untraded : symbol ∉ traded calls) : fillsOf calls symbol = [] := by
  rw [fillsOf, List.reverse_eq_nil_iff, List.filterMap_eq_nil_iff]
  intro call made
  cases call with
  | fill call =>
    refine if_neg (fun same => untraded ?_)
    rw [traded, List.mem_toFinset, List.mem_filterMap]
    exact ⟨_, made, congrArg some same⟩
  | feature fv => rfl
  | tick tsNs => rfl

end Append

theorem Extends.nonneg {position signedQty : Int} (same : Extends position signedQty) :
    0 ≤ position * signedQty := by
  rw [mul_nonneg_iff]
  rcases same with flat | alike <;> omega

theorem extends_iff {position signedQty : Int} (some : signedQty ≠ 0) :
    Extends position signedQty ↔ 0 ≤ position * signedQty := by
  refine ⟨Extends.nonneg, fun alike => ?_⟩
  rw [mul_nonneg_iff] at alike
  rw [Extends]
  omega

theorem netProceeds_cons (fill : Fill) (fills : List Fill) :
    netProceeds (fill :: fills) = netProceeds fills - fill.price * fill.signedQty := by
  rw [netProceeds, netProceeds, Fill.signedQty]
  cases side : fill.side <;> simp [notional, side] <;> ring

theorem netQty_cons (fill : Fill) (fills : List Fill) :
    netQty (fill :: fills) = netQty fills + fill.signedQty := by
  rw [netQty, List.map_cons, List.sum_cons, add_comm, netQty]

/-- The state of a symbol agrees with its fills and its midpoint. -/
structure Tracks (st : SymbolState) (fills : List Fill) (mid : Option ℚ) : Prop where
  cash : st.cash = netProceeds fills
  position : st.position = netQty fills
  avgCost : st.avgCost = heldCost fills
  imbalance : imbalance st = carried fills
  mid : (if st.hasMid then some st.lastMid else none) = mid

namespace Tracks

variable {st : SymbolState} {fills : List Fill} {mid : Option ℚ}

theorem init : Tracks {} [] none where
  cash := by simp [netProceeds, notional]
  position := rfl
  avgCost := rfl
  imbalance := by simp [PnlAccountant.imbalance, carried]
  mid := rfl

theorem halfFlip_iff (held : Tracks st fills mid) (fill : Fill) :
    HalfFlip st fill ↔ HalfTurn (netQty fills) fill := by
  have size := signedQty_natAbs fill
  rw [HalfFlip, HalfTurn, held.position]
  refine and_congr_left fun turned => ?_
  rw [extends_iff (by omega), not_le]

theorem avgCost_fill (held : Tracks st fills mid) (fill : Fill) :
    (applyFill st fill).avgCost = heldCost (fill :: fills) := by
  have size := signedQty_natAbs fill
  simp only [heldCost, ← held.position, ← held.avgCost]
  by_cases flat : st.position + fill.signedQty = 0
  · rw [if_pos flat, applyFill_flat flat]
  · rw [if_neg flat]
    by_cases same : Extends st.position fill.signedQty
    · rw [if_pos same.nonneg, applyFill_average same flat, Int.cast_add]
    · rw [applyFill_cost same flat]
      by_cases none : fill.signedQty = 0
      · -- A fill of no shares averages to the cost it finds.
        have holding : (st.position : ℚ) ≠ 0 := by
          exact_mod_cast fun (none' : st.position = 0) => same (.inl none')
        rw [none, if_neg (by omega), if_pos (by rw [mul_zero]), Int.cast_zero, mul_zero, add_zero,
          add_zero, mul_div_cancel_right₀ _ holding]
      · rw [if_neg (fun alike => same ((extends_iff none).mpr alike))]
        by_cases more : fill.qty > 2 * st.position.natAbs
        · rw [if_pos more, if_neg (by omega)]
        · rw [if_neg more, if_pos (by omega)]

theorem fill (held : Tracks st fills mid) (fill : Fill) :
    Tracks (applyFill st fill) (fill :: fills) mid where
  cash := by rw [applyFill_cash, netProceeds_cons, held.cash]
  position := by rw [applyFill_position, netQty_cons, held.position]
  avgCost := held.avgCost_fill fill
  imbalance := by
    rw [applyFill_imbalance, carried, held.imbalance, held.avgCost, held.position]
    simp only [held.halfFlip_iff]
  mid := by
    rw [← held.mid]
    simp only [applyFill, applyTrade]
    split <;> rfl

/-- What the equity counts for a symbol beyond its value. -/
theorem equity (held : Tracks st fills mid) (quoted : fills ≠ [] → mid ≠ none) :
    (mark st).equity = (netProceeds fills + netQty fills * mid.getD 0) +
      (netProceeds fills + carried fills) := by
  have imbalance := held.imbalance
  rw [← held.cash, ← held.position, ← held.imbalance, ← held.mid]
  simp only [mark, SymbolState.equity, PnlAccountant.imbalance]
  by_cases known : st.hasMid = true
  · rw [if_pos known, if_pos known, Option.getD_some]
    ring
  · have unknown : mid = none := by rw [← held.mid, if_neg known]
    have untraded : fills = [] := by
      by_contra traded
      exact quoted traded unknown
    have flat : st.position = 0 := by rw [held.position, untraded]; rfl
    have cash : st.cash = 0 := by rw [held.cash, untraded]; simp [netProceeds, notional]
    rw [if_neg known, if_neg known, flat, cash]
    norm_num

end Tracks

/-- After every call the accounts of every symbol agree with its fills. -/
theorem tracks_run (cfg : Config) (calls : List (Call D)) (symbol : UInt64) :
    Tracks ((calls.foldl step { cfg }).bySymbol.state symbol) (fillsOf calls symbol)
      (midOf calls symbol) := by
  induction calls using List.reverseRecOn with
  | nil => exact Tracks.init
  | append_singleton calls call held =>
    rw [List.foldl_append, List.foldl_cons, List.foldl_nil, fillsOf_append, midOf_append]
    cases call with
    | fill call =>
      simp only [step, fillStep, onFill, Call.fillOf, Call.midOf, Option.none_or]
      by_cases here : call.symbol = symbol
      · subst here
        rw [StateTable.state_set_self, if_pos rfl]
        exact held.fill call.fill
      · rw [StateTable.state_set_of_ne (Ne.symm here), if_neg here]
        exact held
    | feature fv =>
      simp only [step, onFeature, Call.fillOf, Call.midOf, Option.toList_none, List.nil_append]
      by_cases empty : fv.nbboBidPrice = 0 ∨ fv.nbboAskPrice = 0
      · rw [if_pos empty, if_neg (fun brings => not_or.mpr brings.2 empty), Option.none_or]
        exact held
      · rw [if_neg empty]
        by_cases here : fv.symbolU64 = symbol
        · subst here
          rw [StateTable.state_set_self, if_pos ⟨rfl, not_or.mp empty⟩, Option.some_or]
          refine ⟨held.cash, held.position, held.avgCost, held.imbalance, ?_⟩
          rw [if_pos rfl, one_div, inv_mul_eq_div]
        · rw [StateTable.state_set_of_ne (Ne.symm here), if_neg (fun brings => here brings.1),
            Option.none_or]
          exact held
    | tick tsNs =>
      simp only [step, state_marked, Call.fillOf, Call.midOf, Option.none_or]
      exact ⟨held.cash, held.position, held.avgCost, held.imbalance, held.mid⟩

theorem finalize_equity (plain : Plain a) (tsNs : UInt64) :
    (a.onTickEnd tsNs).finalize.totalEquity = a.markAll.2 := by
  obtain ⟨-, fees, rebates⟩ := onTickEnd_charges a tsNs
  rw [finalize, fees, rebates, plain.fees, plain.rebates, sub_zero, add_zero, onTickEnd_bySymbol]
  rfl

/-- What the equity counts beyond the value of the accounts. -/
theorem markAll_excess (cfg : Config) (calls : List (Call D))
    (quoted : ∀ symbol ∈ traded calls, midOf calls symbol ≠ none) :
    (calls.foldl step { cfg }).markAll.2 = trueValue calls +
      ∑ symbol ∈ traded calls,
        (netProceeds (fillsOf calls symbol) + carried (fillsOf calls symbol)) := by
  have each : ∀ symbol, (SymbolState.equity ∘ mark)
      ((calls.foldl step { cfg }).bySymbol.state symbol) =
        (netProceeds (fillsOf calls symbol) +
          netQty (fillsOf calls symbol) * (midOf calls symbol).getD 0) +
          (netProceeds (fillsOf calls symbol) + carried (fillsOf calls symbol)) := by
    intro symbol
    refine (tracks_run cfg calls symbol).equity (fun some => quoted symbol ?_)
    by_contra untraded
    exact some (fillsOf_untraded untraded)
  have idle : (SymbolState.equity ∘ mark) {} = 0 := by simp [mark, SymbolState.equity]
  have outside : ∀ symbol, symbol ∉ traded calls →
      (SymbolState.equity ∘ mark) ((calls.foldl step { cfg }).bySymbol.state symbol) = 0 := by
    intro symbol untraded
    rw [each, fillsOf_untraded untraded]
    simp [netProceeds, notional, netQty, carried]
  rw [trueValue, ← Finset.sum_add_distrib]
  calc (calls.foldl step { cfg }).markAll.2
      = (calls.foldl step { cfg }).bySymbol.total (SymbolState.equity ∘ mark) :=
        StateTable.total_map _ _
    _ = _ := StateTable.total_eq_sum idle outside
    _ = _ := Finset.sum_congr rfl fun symbol _ => each symbol

/-- The cash is what the sells earn less what the buys cost. The equity of the drawdown and
of the report is what the account is worth exactly if over all symbols the cash and what
half turns carry over add up to nothing. -/
theorem equity_iff (cfg : Config) (maker : cfg.makerRebatePerShare = 0)
    (taker : cfg.takerFeePerShare = 0) (calls : List (Call D)) (tsNs : UInt64)
    (quoted : ∀ symbol ∈ traded calls, midOf calls symbol ≠ none) :
    let a := calls.foldl step { cfg }
    (∀ symbol, (a.bySymbol.state symbol).cash = netProceeds (fillsOf calls symbol) ∧
        (a.bySymbol.state symbol).position = netQty (fillsOf calls symbol)) ∧
      ((a.markAll.2 = trueValue calls ∧
          (a.onTickEnd tsNs).finalize.totalEquity = trueValue calls) ↔
        ∑ symbol ∈ traded calls,
          (netProceeds (fillsOf calls symbol) + carried (fillsOf calls symbol)) = 0) := by
  intro a
  have plain : Plain a :=
    Run.invariant (fun _ call held => held.step call) calls (create_plain maker taker)
  refine ⟨fun symbol => ?_, ?_⟩
  · have held := tracks_run cfg calls symbol
    exact ⟨held.cash, held.position⟩
  · rw [finalize_equity plain, and_self, markAll_excess cfg calls quoted]
    exact add_eq_left

/-- No fees and no rebates. -/
def freeOfCharge : Config := { makerRebatePerShare := 0, takerFeePerShare := 0 }

/-- A quote around 100, and ten bought at 100. -/
def oneBuy : List (Call ℚ) :=
  [.feature ⟨0, 0, 0, 99, 1, 101, 1, 100, 0, 0, 0, 0, 0⟩,
    .fill ⟨0, { orderId := 1, side := .buy, price := 100, qty := 10 }, false⟩]

theorem oneBuy_quoted : ∀ symbol ∈ traded oneBuy, midOf oneBuy symbol ≠ none := by
  intro symbol listed
  have only : traded oneBuy = {0} := by decide
  rw [only, Finset.mem_singleton] at listed
  rw [listed]
  decide +kernel

theorem equity_iff_oneBuy :
    let a := oneBuy.foldl step { cfg := freeOfCharge }
    (∀ symbol, (a.bySymbol.state symbol).cash = netProceeds (fillsOf oneBuy symbol) ∧
        (a.bySymbol.state symbol).position = netQty (fillsOf oneBuy symbol)) ∧
      ((a.markAll.2 = trueValue oneBuy ∧
          (a.onTickEnd 0).finalize.totalEquity = trueValue oneBuy) ↔
        ∑ symbol ∈ traded oneBuy,
          (netProceeds (fillsOf oneBuy symbol) + carried (fillsOf oneBuy symbol)) = 0) :=
  equity_iff freeOfCharge rfl rfl oneBuy 0 oneBuy_quoted

/-- Ten shares bought at 100 and worth 100 cost nothing; the equity says minus a thousand. -/
theorem oneBuy_equity :
    let a := oneBuy.foldl step { cfg := freeOfCharge }
    ¬ (a.markAll.2 = trueValue oneBuy ∧
      (a.onTickEnd 0).finalize.totalEquity = trueValue oneBuy) := by
  decide +kernel

end PnlAccountant

end FeedHandler
