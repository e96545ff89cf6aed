import FeedHandler.Lib.Run
import FeedHandler.Phase4.Strategy
import FeedHandler.Research.StrategyEngine

/-! The two market-making implementations make the same calls. The states of the research
engine, read through `asPhase4`, are those of the phase 4 strategy after every step. -/
namespace FeedHandler

/-- What the router sees of an intent. -/
def OrderIntent.asCall (intent : OrderIntent) : RouterCall :=
  match intent.action with
  | .submit =>
    .submit intent.symbolU64 intent.side intent.price intent.qty intent.tsNs intent.orderId
  | .cancel => .cancel intent.orderId intent.tsNs

/-- The symbol for which a call submits an order id. -/
def RouterCall.submitsFor (orderId : Nat) : RouterCall → Option UInt64
  | .submit symbol _ _ _ _ id => if id = orderId then some symbol else none
  | .cancel .. => none

namespace StrategyEngine

variable {D : Type*} [Binary64 D]

/-- The configuration with the same values. -/
def Config.ofPhase4 (cfg : MarketMakingStrategy.Config D) : Config D where
  halfSpreadTicks := cfg.halfSpreadTicks
  quoteSize := cfg.quoteSize
  maxInventory := cfg.maxInventory
  inventorySkewTicksPerUnit := cfg.inventorySkewTicksPerUnit
  ofiSkewCoef := cfg.ofiSkewCoef
  requoteThresholdTicks := cfg.requoteThresholdTicks
  cancelReplaceCooldownNs := cfg.cancelReplaceCooldownNs

def SideOrder.asPhase4 (order : SideOrder) : MarketMakingStrategy.SideOrder :=
  ⟨order.orderId, order.price, order.active⟩

def SymbolState.asPhase4 (st : SymbolState) : MarketMakingStrategy.SymbolState where
  inventory := st.inventory
  bid := st.bid.asPhase4
  ask := st.ask.asPhase4
  lastCenter := st.lastCenter
  hasCenter := st.hasCenter
  lastRequoteTs := st.lastRequoteTs

/-- The state of a symbol; a missing one is the initial state. -/
def stateOf (t : StrategyEngine D) (symbol : UInt64) : MarketMakingStrategy.SymbolState :=
  ((t.states.lookup symbol).getD {}).asPhase4

/-- The two strategies are in the same state. -/
structure Agrees (s : MarketMakingStrategy D) (t : StrategyEngine D) : Prop where
  cfg : t.cfg = .ofPhase4 s.cfg
  next : t.nextOrderId = s.nextOrderId
  states : t.stateOf = s.bySymbol.state

variable {s : MarketMakingStrategy D} {t : StrategyEngine D} {symbol : UInt64} {f : Fill}

theorem stateOf_setState (t : StrategyEngine D) (symbol : UInt64) (st : SymbolState)
    (cfg : Config D) (next : Nat) : stateOf ⟨cfg, setState symbol st t.states, next⟩ =
      Function.update t.stateOf symbol st.asPhase4 := by
  funext key
  simp only [stateOf, lookup_setState, Function.update_apply]
  split <;> rfl

theorem emitCancel_asCall (order : SideOrder) (symbol tsNs : UInt64) :
    (emitCancel order symbol tsNs).2.map OrderIntent.asCall = order.asPhase4.cancel tsNs := by
  simp only [emitCancel, MarketMakingStrategy.SideOrder.cancel]
  by_cases idle : order.active = false
  · have same : ¬ order.asPhase4.active = true := Bool.eq_false_iff.mp idle
    rw [if_pos idle, if_neg same]
    rfl
  · have same : order.asPhase4.active = true := Bool.eq_true_of_not_eq_false idle
    rw [if_neg idle, if_pos same]
    rfl

theorem asPhase4_afterFill (order : SideOrder) (fill : Fill) :
    (if !fill.isPartial && (order.active && order.orderId == fill.orderId) then {}
      else order : SideOrder).asPhase4 = order.asPhase4.afterFill fill := by
  simp only [MarketMakingStrategy.SideOrder.afterFill]
  by_cases closed : fill.isPartial = false ∧ order.asPhase4.isFilledBy fill = true
  · rw [if_pos closed, if_pos]
    · rfl
    · rw [closed.1]
      exact closed.2
  · rw [if_neg closed, if_neg]
    intro both
    rw [Bool.and_eq_true, Bool.not_eq_true'] at both
    exact closed both

theorem not_refreshes (first moved ready : Bool) :
    ((!first && !moved) || !ready) = !((first || moved) && ready) := by
  cases first <;> cases moved <;> cases ready <;> rfl

/-- Features lead to the same calls and to states that agree. -/
theorem Agrees.onFeature (agrees : Agrees s t) (fv : FeatureVector D) :
    Agrees (s.onFeature fv).1 (t.onFeature fv).1 ∧
      (t.onFeature fv).2.map OrderIntent.asCall = (s.onFeature fv).2 := by
  obtain ⟨cfg, next, states⟩ := agrees
  have own : ((t.states.lookup fv.symbolU64).getD {}).asPhase4 = s.bySymbol.state fv.symbolU64 :=
    congrFun states fv.symbolU64
  cases moves : MarketMakingStrategy.refreshes s.cfg (s.bySymbol.state fv.symbolU64) fv with
  | false =>
    obtain ⟨calls, kept, same⟩ := MarketMakingStrategy.onFeature_quiet moves
    have quiet : t.onFeature fv = ({ t with
        states := setState fv.symbolU64 ((t.states.lookup fv.symbolU64).getD {}) t.states },
        []) := by
      rw [← own] at moves
      simp only [StrategyEngine.onFeature, cfg, not_refreshes]
      rw [if_pos]
      exact congrArg Bool.not moves
    rw [quiet, calls]
    refine ⟨⟨?_, ?_, ?_⟩, rfl⟩
    · rw [MarketMakingStrategy.onFeature_cfg]
      exact cfg
    · rw [same]
      exact next
    · rw [kept, stateOf_setState, own, states]
      exact Function.update_eq_self fv.symbolU64 s.bySymbol.state
  | true =>
    obtain ⟨calls, kept, same⟩ := MarketMakingStrategy.onFeature_requotes moves
    have requoted : (t.onFeature fv).1.cfg = t.cfg ∧
        (t.onFeature fv).1.nextOrderId = t.nextOrderId + 2 ∧
        (t.onFeature fv).1.stateOf = Function.update t.stateOf fv.symbolU64
          (MarketMakingStrategy.requotedState s.cfg t.nextOrderId
            ((t.states.lookup fv.symbolU64).getD {}).asPhase4 fv) ∧
        (t.onFeature fv).2.map OrderIntent.asCall = (s.onFeature fv).2 := by
      rw [calls, ← next, ← own]
      rw [← own] at moves
      simp only [StrategyEngine.onFeature, cfg, not_refreshes]
      rw [if_neg]
      · refine ⟨rfl, rfl, stateOf_setState t _ _ _ (t.nextOrderId + 2), ?_⟩
        simp only [List.map_append, emitCancel_asCall, List.append_assoc]
        rfl
      · intro quiet
        rw [Bool.not_eq_true'] at quiet
        exact absurd (quiet.symm.trans moves) (by decide)
    obtain ⟨sameCfg, later, state, intents⟩ := requoted
    refine ⟨⟨?_, ?_, ?_⟩, intents⟩
    · rw [sameCfg, MarketMakingStrategy.onFeature_cfg]
      exact cfg
    · rw [later, same, next]
    · rw [state, kept, states, own, next]

/-- What a fill does to the symbol it names. -/
theorem onFill_stateOf (t : StrategyEngine D) (symbol : UInt64) (fill : Fill) :
    (t.onFill symbol fill).cfg = t.cfg ∧ (t.onFill symbol fill).nextOrderId = t.nextOrderId ∧
      (t.onFill symbol fill).stateOf =
        if (t.stateOf symbol).Holds fill then
          Function.update t.stateOf symbol (MarketMakingStrategy.applyFill (t.stateOf symbol) fill)
        else t.stateOf := by
  simp only [StrategyEngine.onFill]
  cases found : t.states.lookup symbol with
  | none =>
    have unknown : ¬ (t.stateOf symbol).Holds fill := by
      rw [stateOf, found]
      exact of_decide_eq_false rfl
    simp only [if_neg unknown, and_self]
  | some st =>
    have own : t.stateOf symbol = st.asPhase4 := by
      rw [stateOf, found]
      rfl
    have holds : ((!(st.bid.active && st.bid.orderId == fill.orderId) &&
        !(st.ask.active && st.ask.orderId == fill.orderId)) = true) ↔
        ¬ (t.stateOf symbol).Holds fill := by
      rw [own, ← Bool.not_or, Bool.not_eq_true', ← Bool.not_eq_true, Bool.or_eq_true]
      rfl
    by_cases held : (t.stateOf symbol).Holds fill
    · simp only [if_neg (mt holds.mp (not_not_intro held)), if_pos held, true_and]
      rw [stateOf_setState, own]
      congr 1
      simp only [SymbolState.asPhase4, asPhase4_afterFill]
      rfl
    · simp only [if_pos (holds.mpr held), if_neg held, and_self]

/-- Fills lead to states that agree, if only the named symbol holds the order. -/
theorem Agrees.onFill (agrees : Agrees s t)
    (only : ∀ k, (s.bySymbol.state k).Holds f → k = symbol) :
    Agrees (s.onFill f) (t.onFill symbol f) := by
  obtain ⟨cfg, next, states⟩ := agrees
  obtain ⟨sameCfg, sameNext, state⟩ := onFill_stateOf t symbol f
  rw [states] at state
  refine ⟨?_, ?_, ?_⟩
  · rw [sameCfg, MarketMakingStrategy.onFill_cfg]
    exact cfg
  · rw [sameNext, MarketMakingStrategy.onFill_nextOrderId]
    exact next
  · rw [state]
    split
    · next held => exact (MarketMakingStrategy.onFill_held held only).symm
    · next free =>
      rw [MarketMakingStrategy.onFill_unheld fun k held => free (only k held ▸ held)]

/-- What the two strategies are told: the features of a symbol, and the fill of an order
together with the symbol that the caller names for it. -/
inductive Input (D : Type*) where
  | feature (fv : FeatureVector D)
  | fill (symbol : UInt64) (fill : Fill)

/-- The phase 4 strategy with the calls it has made. -/
structure Phase4Run (D : Type*) [Binary64 D] where
  strategy : MarketMakingStrategy D
  calls : List RouterCall := []

/-- The research engine with the intents it has sent. -/
structure ResearchRun (D : Type*) [Binary64 D] where
  engine : StrategyEngine D
  intents : List OrderIntent := []

def Phase4Run.step (run : Phase4Run D) : Input D → Phase4Run D
  | .feature fv =>
    let made := run.strategy.onFeature fv
    ⟨made.1, run.calls ++ made.2⟩
  | .fill _ fill => { run with strategy := run.strategy.onFill fill }

def ResearchRun.step (run : ResearchRun D) : Input D → ResearchRun D
  | .feature fv =>
    let made := run.engine.onFeature fv
    ⟨made.1, run.intents ++ made.2⟩
  | .fill symbol fill => { run with engine := run.engine.onFill symbol fill }

/-- A fill names the symbol for which its order was submitted. -/
def Named (run : Phase4Run D) : Input D → Prop
  | .feature _ => True
  | .fill symbol fill => ∀ k ∈ run.calls.filterMap (RouterCall.submitsFor fill.orderId), k = symbol

instance (run : Phase4Run D) : (input : Input D) → Decidable (Named run input)
  | .feature _ => isTrue trivial
  | .fill symbol _ => List.decidableBAll (fun k => k = symbol) _

/-- Every active quote of a symbol was submitted for that symbol. -/
def Submitted (run : Phase4Run D) : Prop :=
  ∀ k side, ((run.strategy.bySymbol.state k).quote side).active = true →
    k ∈ run.calls.filterMap
      (RouterCall.submitsFor ((run.strategy.bySymbol.state k).quote side).orderId)

/-- The two runs have made the same calls, and their states agree. -/
structure Simulates (run : Phase4Run D) (other : ResearchRun D) : Prop where
  agrees : Agrees run.strategy other.engine
  calls : other.intents.map OrderIntent.asCall = run.calls
  submitted : Submitted run

variable {run : Phase4Run D} {other : ResearchRun D}

theorem Submitted.feature (submitted : Submitted run) (fv : FeatureVector D) :
    Submitted (run.step (.feature fv)) := by
  have earlier : ∀ {k id} {made : List RouterCall},
      k ∈ run.calls.filterMap (RouterCall.submitsFor id) →
      k ∈ (run.calls ++ made).filterMap (RouterCall.submitsFor id) := by
    intro k id made member
    rw [List.filterMap_append]
    exact List.mem_append_left _ member
  intro k side active
  simp only [Phase4Run.step] at active ⊢
  cases moves : MarketMakingStrategy.refreshes run.strategy.cfg
      (run.strategy.bySymbol.state fv.symbolU64) fv with
  | false =>
    obtain ⟨-, kept, -⟩ := MarketMakingStrategy.onFeature_quiet moves
    rw [kept] at active ⊢
    exact earlier (submitted k side active)
  | true =>
    obtain ⟨calls, kept, -⟩ := MarketMakingStrategy.onFeature_requotes moves
    rw [kept] at active ⊢
    by_cases here : k = fv.symbolU64
    · rw [here, Function.update_self, calls]
      simp only [List.filterMap_append, List.mem_append]
      refine Or.inr (Or.inr ?_)
      cases side <;>
        simp [RouterCall.submitsFor, MarketMakingStrategy.SymbolState.quote,
          MarketMakingStrategy.requotedState]
    · rw [Function.update_of_ne here] at active ⊢
      exact earlier (submitted k side active)

/-- The named symbol is the only one that holds the order of the fill. -/
theorem Submitted.only (submitted : Submitted run) (named : Named run (.fill symbol f)) (k : UInt64)
    (holds : (run.strategy.bySymbol.state k).Holds f) : k = symbol := by
  have quote : ∃ side, ((run.strategy.bySymbol.state k).quote side).isFilledBy f = true :=
    holds.elim (fun bid => ⟨.buy, bid⟩) (fun ask => ⟨.sell, ask⟩)
  obtain ⟨side, filled⟩ := quote
  obtain ⟨active, same⟩ := Bool.and_eq_true_iff.mp filled
  refine named k ?_
  rw [← beq_iff_eq.mp same]
  exact submitted k side active

theorem Submitted.fill (submitted : Submitted run) (named : Named run (.fill symbol f)) :
    Submitted (run.step (.fill symbol f)) := by
  intro k side active
  simp only [Phase4Run.step] at active ⊢
  by_cases holds : (run.strategy.bySymbol.state symbol).Holds f
  · rw [MarketMakingStrategy.onFill_held holds (submitted.only named)] at active ⊢
    by_cases here : k = symbol
    · rw [here, Function.update_self] at active ⊢
      have same := MarketMakingStrategy.quote_applyFill active
      rw [same] at active ⊢
      exact submitted symbol side active
    · rw [Function.update_of_ne here] at active ⊢
      exact submitted k side active
  · rw [MarketMakingStrategy.onFill_unheld
      fun k held => holds (submitted.only named k held ▸ held)] at active ⊢
    exact submitted k side active

theorem Simulates.step (simulates : Simulates run other) {input : Input D}
    (named : Named run input) : Simulates (run.step input) (other.step input) := by
  obtain ⟨agrees, calls, submitted⟩ := simulates
  cases input with
  | feature fv =>
    obtain ⟨next, made⟩ := agrees.onFeature fv
    refine ⟨next, ?_, submitted.feature fv⟩
    simp only [ResearchRun.step, Phase4Run.step, List.map_append, calls, made]
  | fill symbol f => exact ⟨agrees.onFill (submitted.only named), calls, submitted.fill named⟩

theorem initial_simulates (cfg : MarketMakingStrategy.Config D) :
    Simulates ⟨{ cfg }, []⟩ ⟨{ cfg := .ofPhase4 cfg }, []⟩ where
  agrees := ⟨rfl, rfl, rfl⟩
  calls := rfl
  submitted := fun _ side active => by cases side <;> cases active

/-- For one configuration and one sequence of features and fills, in which every fill names
the symbol of its order, the two strategies make the same calls. -/
theorem same_actions (cfg : MarketMakingStrategy.Config D) (inputs : List (Input D))
    (named : Run.Along Phase4Run.step Named ⟨{ cfg }, []⟩ inputs) :
    (inputs.foldl ResearchRun.step ⟨{ cfg := .ofPhase4 cfg }, []⟩).intents.map OrderIntent.asCall =
      (inputs.foldl Phase4Run.step ⟨{ cfg }, []⟩).calls :=
  (named.simulation (fun _ _ _ simulates ok => simulates.step ok) (initial_simulates cfg)).calls

/-- A quote around 100, a partial fill of its bid, and a requote around 103. -/
def requotedAfterFill : List (Input ℚ) :=
  let at_ (center : ℚ) (tsNs : UInt64) : FeatureVector ℚ :=
    ⟨7, tsNs, tsNs, 99, 1, 101, 1, center, 0, 0, 0, 0, 0⟩
  [.feature (at_ 100 10), .fill 7 ⟨1, .buy, 99, 4, 15, true⟩, .feature (at_ 103 20)]

theorem same_actions_requoted :
    (requotedAfterFill.foldl ResearchRun.step ⟨{ cfg := .ofPhase4 {} }, []⟩).intents.map
        OrderIntent.asCall =
      (requotedAfterFill.foldl Phase4Run.step ⟨{}, []⟩).calls :=
  same_actions {} requotedAfterFill (by decide +kernel)

end StrategyEngine

end FeedHandler
