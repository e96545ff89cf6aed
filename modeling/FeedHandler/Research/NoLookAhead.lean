import FeedHandler.Phase4.BacktestConsistency
import FeedHandler.Phase4.FillCausality
import FeedHandler.Research.ExperimentDesk

/-! When a simulation looks ahead. The strategies quote on an event before the engine matches
it, so a print can fill an order that it caused itself. -/
namespace FeedHandler

open SimMatchingEngine (SideSorts)

variable {D : Type*} [Binary64 D] {layout : ProbeLayout UInt64} {sorts : SideSorts}

namespace BacktestRunner

variable {r : BacktestRunner D layout}

def entry (sorts : SideSorts) (r : BacktestRunner D layout) (letter : BookEvent × Nat) :
    TapeEntry where
  calls := r.calls letter.1
  fills := ((r.onMergedEvent sorts letter.1).engine.onMarketEvent letter.1 letter.2).2

def trace (sorts : SideSorts) (r : BacktestRunner D layout) (tape : List (BookEvent × Nat)) :
    List TapeEntry := traceOf (step sorts) (entry sorts) r tape

theorem entry_eq (sorts : SideSorts) (r : BacktestRunner D layout) (letter : BookEvent × Nat) :
    entry sorts r letter = ⟨r.calls letter.1,
      (((r.calls letter.1).foldl (OrderDesk.route sorts) r.desk).engine.onMarketEvent letter.1
        letter.2).2⟩ := by
  rw [← (onMergedEvent_desk sorts r letter.1).1]
  rfl

/-- The step of a consistent runner is a turn of its quotes. -/
theorem Consistent.turn (consistent : Consistent r) (sorts : SideSorts) (letter : BookEvent × Nat) :
    (r.step sorts letter).strategy.cfg = r.strategy.cfg ∧
      QuoteTurn sorts r.strategy.cfg.quoteSize r.strategy.quotes r.strategy.nextOrderId r.desk
        letter.1 letter.2 (r.replaced letter.1) (entry sorts r letter)
        (r.step sorts letter).strategy.quotes := by
  obtain ⟨-, cfg, moves⟩ := onMergedEvent_desk sorts r letter.1
  obtain ⟨-, same, fewer⟩ := (consistent.merged sorts letter.1).matched letter.1 letter.2
  rw [entry_eq]
  exact ⟨same.trans cfg, .taken moves fewer⟩

/-- Without a quote size nothing ever rests or is filled. -/
theorem bare_step (unsized : r.strategy.cfg.quoteSize = 0) (bare : Bare r.engine)
    (sorts : SideSorts) (letter : BookEvent × Nat) :
    (entry sorts r letter).fills = [] ∧ Bare (r.step sorts letter).engine ∧
      (r.step sorts letter).strategy.cfg.quoteSize = 0 := by
  obtain ⟨desk, cfg, moves⟩ := onMergedEvent_desk sorts r letter.1
  rw [unsized] at moves
  have merged : Bare (r.onMergedEvent sorts letter.1).desk.engine := by
    rw [desk]
    exact Bare.foldl_route bare moves.void
  obtain ⟨quiet, after⟩ := merged.matched letter.1 letter.2
  have fills : ((r.onMergedEvent sorts letter.1).engine.onMarketEvent letter.1 letter.2).2 = [] :=
    quiet
  refine ⟨quiet, ?_⟩
  simp only [step, onMarketEvent, fills]
  refine ⟨after, ?_⟩
  rw [List.foldl_nil, cfg]
  exact unsized

def view : QuoteView (BacktestRunner D layout) where
  quotes := fun r => r.strategy.quotes
  next := fun r => r.strategy.nextOrderId
  desk := desk
  replaced := replaced

theorem trace_causal_iff (sorts : SideSorts) (strategyCfg : MarketMakingStrategy.Config D)
    (pnlCfg : PnlAccountant.Config) (tape : List (BookEvent × Nat)) :
    Causal (trace sorts (create strategyCfg pnlCfg : BacktestRunner D layout) tape) ↔
      Run.Along (step sorts) (fun r letter =>
          ¬ MeetsOwnQuote strategyCfg.quoteSize (r.replaced letter.1) letter.1 letter.2)
        (create strategyCfg pnlCfg : BacktestRunner D layout) tape := by
  rcases Nat.eq_zero_or_pos strategyCfg.quoteSize with unsized | sized
  · rw [unsized]
    exact causal_iff_of_quiet view (fun r => Bare r.engine ∧ r.strategy.cfg.quoteSize = 0)
      (fun r letter held => bare_step held.2 held.1 sorts letter) ⟨bare_initial, unsized⟩ tape
  · refine causal_iff sorts view (fun r => Consistent r ∧ r.strategy.cfg = strategyCfg) sized ?_ ?_
      ⟨create_consistent pnlCfg sized, rfl⟩ (create_quotes strategyCfg pnlCfg) tape
    · rintro r ⟨consistent, rfl⟩
      exact consistent.mirrors
    · rintro r letter ⟨consistent, rfl⟩
      obtain ⟨cfg, turn⟩ := consistent.turn sorts letter
      exact ⟨⟨consistent.step sorts letter, cfg⟩, turn⟩

end BacktestRunner

namespace OfiStrategy

theorem cancelIfActive_void (symbol : UInt64) (orderId : Nat) (side : OrderSide) (price : Int)
    (tsNs : UInt64) : ∀ intent ∈ cancelIfActive symbol orderId side price tsNs,
      intent.asCall.Void := by
  intro intent member
  simp only [cancelIfActive] at member
  split at member
  · cases member
  · rw [List.mem_singleton.mp member]
    trivial

/-- Without a quote size an event makes cancels alone. -/
theorem onEvent_void {s : OfiStrategy D layout} (unsized : s.cfg.quoteSize = 0) (ev : BookEvent) :
    ∀ call ∈ (s.onEvent ev).2.map OrderIntent.asCall, call.Void := by
  intro call member
  obtain ⟨intent, made, rfl⟩ := List.mem_map.mp member
  have nothing : ∀ next symbol side price tsNs,
      submit next symbol side price s.cfg.quoteSize tsNs = (0, next, []) := by
    intro next symbol side price tsNs
    exact if_pos unsized
  rw [onEvent_eq] at made
  simp only [requote, nothing, List.append_nil] at made
  split at made
  · cases made
  · split at made
    · cases made
    · have cancels : intent ∈
          cancelIfActive ev.symbol.asU64 (s.deciding ev).bidOrderId .buy
              (s.deciding ev).lastBidQuote ev.exchangeTsNs ++
            cancelIfActive ev.symbol.asU64 (s.deciding ev).askOrderId .sell
              (s.deciding ev).lastAskQuote ev.exchangeTsNs := by
        split at made
        · exact made
        · split at made <;> exact made
      rcases List.mem_append.mp cancels with bid | ask
      · exact cancelIfActive_void _ _ _ _ _ intent bid
      · exact cancelIfActive_void _ _ _ _ _ intent ask

end OfiStrategy

/-- The quote size of the chosen strategy. -/
def ExperimentConfig.quoteSize (cfg : ExperimentConfig D) : Nat :=
  match cfg.strategyKind with
  | .marketMaking => cfg.strategy.quoteSize
  | .ofi => cfg.ofiStrategy.quoteSize

namespace ExperimentState

variable {x : ExperimentState D layout}

/-- The quotes that the chosen strategy replaces at an event, if the clock takes it. -/
def replaced (x : ExperimentState D layout) (ev : BookEvent) : Option Replacement :=
  if (x.clock.onEvent ev).2 = false then none else x.replacement ev

def entry (sorts : SideSorts) (x : ExperimentState D layout) (letter : BookEvent × Nat) :
    TapeEntry :=
  if (x.clock.onEvent letter.1).2 = false then {}
  else
    { calls := x.calls letter.1
      fills :=
        (((x.ticked letter.1).quoted sorts letter.1).engine.onMarketEvent letter.1 letter.2).2 }

def trace (sorts : SideSorts) (x : ExperimentState D layout) (tape : List (BookEvent × Nat)) :
    List TapeEntry := traceOf (onEvent sorts) (entry sorts) x tape

theorem entry_taken {letter : BookEvent × Nat} (takes : ¬ (x.clock.onEvent letter.1).2 = false)
    {sorts : SideSorts} (routed : ((x.ticked letter.1).quoted sorts letter.1).desk =
      (x.calls letter.1).foldl (OrderDesk.route sorts) x.desk) :
    entry sorts x letter = ⟨x.calls letter.1,
      (((x.calls letter.1).foldl (OrderDesk.route sorts) x.desk).engine.onMarketEvent letter.1
        letter.2).2⟩ := by
  rw [entry, if_neg takes, ← routed]
  rfl

/-- The step of a runner whose desk is held is a turn of its quotes. -/
theorem Held.turn (held : Held x) (sorts : SideSorts) (letter : BookEvent × Nat) :
    Held (x.onEvent sorts letter) ∧ (x.onEvent sorts letter).quoteSize = x.quoteSize ∧
      QuoteTurn sorts x.quoteSize x.quotes x.nextOrderId x.desk letter.1 letter.2
        (x.replaced letter.1) (entry sorts x letter) (x.onEvent sorts letter).quotes := by
  by_cases rejects : (x.clock.onEvent letter.1).2 = false
  · rw [onEvent_rejected rejects, replaced, entry, if_pos rejects, if_pos rejects]
    exact ⟨⟨held.sized, held.mirrors⟩, rfl, .rejected⟩
  · have ticked := held.ticked letter.1
    obtain ⟨desk, size, moves⟩ :=
      quoted_move ticked.sized ticked.mirrors.started sorts letter.1
    obtain ⟨after, same, fewer⟩ := (ticked.quoted sorts letter.1).matched letter.1 letter.2
    rw [onEvent_taken rejects, replaced, if_neg rejects, entry_taken rejects desk]
    exact ⟨⟨after.sized, after.mirrors⟩, same.trans size, .taken moves fewer⟩

/-- The chosen strategy quotes no quantity, and nothing rests. -/
structure Idle (x : ExperimentState D layout) : Prop where
  bare : Bare x.engine
  unsized : x.quoteSize = 0

/-- Without a quote size the chosen strategy makes void calls alone. -/
theorem quoted_void (unsized : x.quoteSize = 0) (sorts : SideSorts) (ev : BookEvent) :
    let after := x.quoted sorts ev
    after.desk = (x.calls ev).foldl (OrderDesk.route sorts) x.desk ∧ after.quoteSize = 0 ∧
      ∀ call ∈ x.calls ev, call.Void := by
  cases kind : x.strategyKind with
  | marketMaking =>
    obtain ⟨desk, same, strategy⟩ := quoted_marketMaking kind sorts ev
    refine ⟨desk, ?_⟩
    simp only [quoteSize, calls, kind, same, strategy] at unsized ⊢
    cases (x.bridge.onMergedEvent ev).2 with
    | none => exact ⟨unsized, fun call member => by cases member⟩
    | some fv =>
      have moves := x.strategy.onFeature_move fv
      rw [unsized] at moves
      exact ⟨(congrArg _ (StrategyEngine.onFeature_cfg _ fv)).trans unsized, moves.void⟩
  | ofi =>
    obtain ⟨desk, same, strategy⟩ := quoted_ofi kind sorts ev
    refine ⟨desk, ?_⟩
    simp only [quoteSize, calls, kind, same, strategy, OfiStrategy.onEvent_cfg] at unsized ⊢
    exact ⟨unsized, OfiStrategy.onEvent_void unsized ev⟩

theorem Idle.step (idle : Idle x) (sorts : SideSorts) (letter : BookEvent × Nat) :
    (entry sorts x letter).fills = [] ∧ Idle (x.onEvent sorts letter) := by
  by_cases rejects : (x.clock.onEvent letter.1).2 = false
  · rw [onEvent_rejected rejects, entry, if_pos rejects]
    exact ⟨rfl, idle.bare, idle.unsized⟩
  · have ticked : (x.ticked letter.1).quoteSize = 0 := idle.unsized
    obtain ⟨desk, unsized, void⟩ := quoted_void ticked sorts letter.1
    have made : Bare ((x.ticked letter.1).quoted sorts letter.1).desk.engine := by
      rw [desk]
      exact Bare.foldl_route idle.bare void
    obtain ⟨fills, left⟩ := made.matched letter.1 letter.2
    have quiet : (((x.ticked letter.1).quoted sorts letter.1).engine.onMarketEvent letter.1
      letter.2).2 = [] := fills
    rw [onEvent_taken rejects, entry, if_neg rejects]
    simp only [onMarketEvent, quiet, List.foldl_nil]
    exact ⟨trivial, left, unsized⟩

def view : QuoteView (ExperimentState D layout) where
  quotes := quotes
  next := nextOrderId
  desk := desk
  replaced := replaced

theorem trace_causal_iff (sorts : SideSorts) (cfg : ExperimentConfig D)
    (tape : List (BookEvent × Nat)) :
    Causal (trace sorts (create cfg : ExperimentState D layout) tape) ↔
      Run.Along (onEvent sorts) (fun x letter =>
          ¬ MeetsOwnQuote cfg.quoteSize (x.replaced letter.1) letter.1 letter.2)
        (create cfg : ExperimentState D layout) tape := by
  have size : (create cfg : ExperimentState D layout).quoteSize = cfg.quoteSize := rfl
  rcases Nat.eq_zero_or_pos cfg.quoteSize with unsized | sized
  · rw [unsized] at size ⊢
    exact causal_iff_of_quiet view Idle (fun x letter idle => idle.step sorts letter)
      ⟨bare_initial, size⟩ tape
  · refine causal_iff sorts view (fun x => Held x ∧ x.quoteSize = cfg.quoteSize) sized ?_ ?_
      ⟨create_held (size ▸ sized), size⟩ (create_quotes cfg) tape
    · rintro x ⟨held, same⟩
      rw [← same]
      exact held.mirrors
    · rintro x letter ⟨held, same⟩
      obtain ⟨after, kept, turn⟩ := held.turn sorts letter
      rw [same] at turn
      exact ⟨⟨after, kept.trans same⟩, turn⟩

end ExperimentState

/-- Both runners fill an order by the event that caused it exactly where the strategy replaces
quotes at a print that reaches the new ones. -/
theorem no_look_ahead_iff (sorts : SideSorts) (tape : List (BookEvent × Nat)) :
    (∀ (strategyCfg : MarketMakingStrategy.Config D) (pnlCfg : PnlAccountant.Config),
        Causal (BacktestRunner.trace sorts
            (.create strategyCfg pnlCfg : BacktestRunner D layout) tape) ↔
          Run.Along (BacktestRunner.step sorts) (fun r letter =>
              ¬ MeetsOwnQuote strategyCfg.quoteSize (r.replaced letter.1) letter.1 letter.2)
            (.create strategyCfg pnlCfg : BacktestRunner D layout) tape) ∧
      ∀ cfg : ExperimentConfig D,
        Causal (ExperimentState.trace sorts (.create cfg : ExperimentState D layout) tape) ↔
          Run.Along (ExperimentState.onEvent sorts) (fun x letter =>
              ¬ MeetsOwnQuote cfg.quoteSize (x.replaced letter.1) letter.1 letter.2)
            (.create cfg : ExperimentState D layout) tape :=
  ⟨fun strategyCfg pnlCfg => BacktestRunner.trace_causal_iff sorts strategyCfg pnlCfg tape,
    fun cfg => ExperimentState.trace_causal_iff sorts cfg tape⟩

/-- Two prints into the bid that is quoted between a bid and an ask. The first takes it whole,
and at the second it is quoted again. -/
def printedTwice : List (BookEvent × Nat) :=
  [({ type := .add, side := .buy, orderId := 1, qty := 50, price := 100, exchangeTsNs := 1 }, 12),
    ({ type := .add, side := .sell, orderId := 2, qty := 50, price := 104, exchangeTsNs := 2 }, 12),
    ({ type := .trade, side := .sell, qty := 40, price := 101, exchangeTsNs := 3 }, 10),
    ({ type := .trade, side := .sell, qty := 40, price := 101, exchangeTsNs := 4 }, 10)]

theorem no_look_ahead_printedTwice :
    ¬ Causal (BacktestRunner.trace .insertion
        (.create {} {} : BacktestRunner ℚ OrderBookEngine.orderLayout) printedTwice) ∧
      ¬ Causal (ExperimentState.trace .insertion
        (.create {} : ExperimentState ℚ OrderBookEngine.orderLayout) printedTwice) ∧
      ¬ Causal (ExperimentState.trace .insertion
        (.create { strategyKind := .ofi } : ExperimentState ℚ OrderBookEngine.orderLayout)
        printedTwice) := by
  decide +kernel

end FeedHandler
