import FeedHandler.Phase3.RollingOfi
import FeedHandler.Research.OfiStrategy

/-! The order flow imbalance is coded twice, for the strategies and for the features. Fed with
the same best quotes both move alike as long as the ask keeps its price; for an ask that moves
the strategies' signal has the comparison of the bid. -/
namespace FeedHandler

namespace OfiSignal

section Prune

variable {s : OfiSignal ℚ}

/-- A loop that drops entries from the front drops some, or nothing happens. -/
theorem drops_cases (loop : List (Entry ℚ) → ℚ → List (Entry ℚ) × ℚ)
    (nil : ∀ sum, loop [] sum = ([], sum))
    (cons : ∀ entry rest sum, loop (entry :: rest) sum = loop rest (sum - entry.v) ∨
      loop (entry :: rest) sum = (entry :: rest, sum)) (window : List (Entry ℚ)) (sum : ℚ) :
    loop window sum = (window, sum) ∨ (loop window sum).1.length < window.length := by
  induction window generalizing sum with
  | nil => exact .inl (nil sum)
  | cons entry rest ih =>
    rcases cons entry rest sum with dropped | stopped
    · right
      rw [dropped]
      rcases ih (sum - entry.v) with same | fewer
      · rw [same]
        exact Nat.lt_succ_self _
      · exact fewer.trans (Nat.lt_succ_self _)
    · exact .inl stopped

theorem pruneOld_cases (maxWindowNs ts : UInt64) (window : List (Entry ℚ)) (sum : ℚ) :
    pruneOld maxWindowNs ts window sum = (window, sum) ∨
      (pruneOld maxWindowNs ts window sum).1.length < window.length := by
  refine drops_cases (pruneOld maxWindowNs ts) (fun _ => rfl) (fun entry rest sum => ?_) window sum
  rw [pruneOld]
  split
  · exact .inl rfl
  · exact .inr rfl

theorem pruneMany_cases (maxEvents : Nat) (window : List (Entry ℚ)) (sum : ℚ) :
    pruneMany maxEvents window sum = (window, sum) ∨
      (pruneMany maxEvents window sum).1.length < window.length := by
  refine drops_cases (pruneMany maxEvents) (fun _ => rfl) (fun entry rest sum => ?_) window sum
  rw [pruneMany]
  split
  · exact .inl rfl
  · exact .inr rfl

/-- Pruning that drops no entry changes nothing. -/
theorem prune_kept {ts : UInt64} (kept : s.window.length ≤ (s.prune ts).window.length) :
    s.prune ts = s := by
  have old : (if s.cfg.maxWindowNs > 0 then pruneOld s.cfg.maxWindowNs ts s.window s.sum
        else (s.window, s.sum)) = (s.window, s.sum) ∨
      (if s.cfg.maxWindowNs > 0 then pruneOld s.cfg.maxWindowNs ts s.window s.sum
        else (s.window, s.sum)).1.length < s.window.length := by
    split
    · exact pruneOld_cases ..
    · exact .inl rfl
  have many : ∀ recent : List (Entry ℚ) × ℚ,
      (if s.cfg.maxEvents > 0 then pruneMany s.cfg.maxEvents recent.1 recent.2 else recent) = recent ∨
        (if s.cfg.maxEvents > 0 then pruneMany s.cfg.maxEvents recent.1 recent.2
          else recent).1.length < recent.1.length := by
    intro recent
    split
    · exact pruneMany_cases ..
    · exact .inl rfl
  rcases old with same | fewer
  · rcases many (s.window, s.sum) with whole | fewer
    · simp only [prune, same, whole]
    · simp only [prune, same] at kept
      exact absurd fewer (not_lt.mpr kept)
  · have last := many (if s.cfg.maxWindowNs > 0 then
      pruneOld s.cfg.maxWindowNs ts s.window s.sum else (s.window, s.sum))
    simp only [prune] at kept
    rcases last with same | less
    · rw [same] at kept
      omega
    · omega

theorem push_kept {ev : BookEvent} {fi : ℚ}
    (kept : s.window.length < (s.push ev fi).window.length) :
    s.push ev fi =
      { s with window := s.window ++ [⟨ev.exchangeTsNs, fi⟩], sum := s.sum + fi } := by
  refine prune_kept ?_
  rw [List.length_append, List.length_singleton]
  exact kept

/-- The imbalance that an update of one side brings. -/
def flow (s : OfiSignal ℚ) (ev : BookEvent) : ℚ :=
  if ev.side = .buy then s.bidFlow ev else s.askFlow ev

theorem update_buy {ev : BookEvent} (side : ev.side = .buy) (priced : 0 < ev.price) :
    s.update ev = OfiSignal.push { s with hasBid := true, bidPx := ev.price, bidQty := ev.qty } ev
      (s.bidFlow ev) := if_pos ⟨side, priced⟩

theorem update_sell {ev : BookEvent} (side : ev.side = .sell) (priced : 0 < ev.price) :
    s.update ev = OfiSignal.push { s with hasAsk := true, askPx := ev.price, askQty := ev.qty } ev
      (s.askFlow ev) := by
  rw [update, if_neg (by simp [side]), if_pos ⟨side, priced⟩]

/-- A priced update of a side that evicts nothing adds its flow. -/
theorem update_kept {ev : BookEvent} (sided : ev.side ≠ .unknown) (priced : 0 < ev.price)
    (kept : s.window.length < (s.update ev).window.length) :
    (s.update ev).value = s.value + s.flow ev := by
  cases side : ev.side with
  | buy =>
    rw [update_buy side priced] at kept ⊢
    rw [push_kept (by exact kept), flow, if_pos side]
    rfl
  | sell =>
    rw [update_sell side priced] at kept ⊢
    rw [push_kept (by exact kept), flow, if_neg (by simp [side])]
    rfl
  | unknown => exact absurd side sided

end Prune

/-- What the signal remembers are these quotes. -/
structure Holds (s : OfiSignal ℚ) (nbbo : Nbbo) : Prop where
  hasBid : s.hasBid = nbbo.hasBid
  bidPx : s.bidPx = nbbo.bidPrice
  bidQty : s.bidQty = nbbo.bidQty
  hasAsk : s.hasAsk = nbbo.hasAsk
  askPx : s.askPx = nbbo.askPrice
  askQty : s.askQty = nbbo.askQty

end OfiSignal

/-- The best quotes that an update leaves. -/
def Nbbo.setBest (nbbo : Nbbo) (ev : BookEvent) : Nbbo :=
  match ev.side with
  | .buy => { nbbo with hasBid := true, bidPrice := ev.price, bidQty := ev.qty }
  | .sell => { nbbo with hasAsk := true, askPrice := ev.price, askQty := ev.qty }
  | .unknown => nbbo

/-- An event of a symbol that sets its best bid or its best ask. -/
structure BestUpdate (symbol : UInt64) where
  ev : BookEvent
  sided : ev.side ≠ .unknown
  priced : 0 < ev.price
  sized : 0 < ev.qty
  own : ev.symbol.asU64 = symbol

/-- Both signals and the quotes they have been fed with; `reported` is the imbalance in the
last features. -/
structure OfiPair where
  nbbo : Nbbo := {}
  signal : OfiSignal ℚ
  features : FeaturePipeline ℚ
  reported : ℚ := 0

namespace OfiPair
open FeaturePipeline

variable {symbol : UInt64}

def start (signal : OfiSignal.Config) (features : FeatureConfig) : OfiPair where
  signal := { cfg := signal }
  features := { cfg := features }

/-- The update goes to the signal, and the quotes it leaves to the features. -/
def step (s : OfiPair) (u : BestUpdate symbol) : OfiPair :=
  let nbbo := s.nbbo.setBest u.ev
  let made := s.features.onEvent u.ev nbbo 0
  { nbbo := nbbo
    signal := s.signal.update u.ev
    features := made.1
    reported := match made.2 with
      | some fv => fv.ofi
      | none => s.reported }

/-- Neither window loses a point. -/
def KeepsWindows (s : OfiPair) (u : BestUpdate symbol) : Prop :=
  s.signal.window.length < (s.step u).signal.window.length ∧
    (quoted (s.nbbo.setBest u.ev) = true →
      (live (s.features.stateOf symbol)).length < (live ((s.step u).features.stateOf symbol)).length)

/-- Once both sides are set, the update changes both values by the same amount. -/
def MovesAlike (s : OfiPair) (u : BestUpdate symbol) : Prop :=
  quoted s.nbbo = true →
    (s.step u).signal.value - s.signal.value = (s.step u).reported - s.reported

/-- Once both sides are set, the update leaves the price of the ask. -/
def KeepsAskPrice (s : OfiPair) (u : BestUpdate symbol) : Prop :=
  quoted s.nbbo = true → u.ev.side = .sell → u.ev.price = s.nbbo.askPrice

/-- Both signals are up to date with the quotes. -/
structure Matched (symbol : UInt64) (s : OfiPair) : Prop where
  signal : s.signal.Holds s.nbbo
  cache : s.features.CacheSound
  inside : (s.features.stateOf symbol).ofiHead ≤ (s.features.stateOf symbol).ofiWindow.length
  last : Remembers (s.features.stateOf symbol) (if quoted s.nbbo then some s.nbbo else none)
  reported : quoted s.nbbo = true → s.reported = (s.features.stateOf symbol).ofiSum

variable {s : OfiPair} {u : BestUpdate symbol}

theorem signal_next (held : s.signal.Holds s.nbbo) (u : BestUpdate symbol) :
    (s.signal.update u.ev).Holds (s.nbbo.setBest u.ev) := by
  obtain ⟨hasBid, bidPx, bidQty, hasAsk, askPx, askQty⟩ := held
  cases side : u.ev.side with
  | buy =>
    rw [OfiSignal.update_buy side u.priced, Nbbo.setBest, side]
    exact ⟨rfl, rfl, rfl, hasAsk, askPx, askQty⟩
  | sell =>
    rw [OfiSignal.update_sell side u.priced, Nbbo.setBest, side]
    exact ⟨hasBid, bidPx, bidQty, rfl, rfl, rfl⟩
  | unknown => exact absurd side u.sided

/-- Two sides stay two sides. -/
theorem quoted_setBest (both : quoted s.nbbo = true) (u : BestUpdate symbol) :
    quoted (s.nbbo.setBest u.ev) = true := by
  have priced : u.ev.price ≠ 0 := by
    intro zero
    have positive := u.priced
    rw [zero] at positive
    exact absurd positive (by decide)
  simp only [quoted, Bool.and_eq_true, bne_iff_ne] at both ⊢
  obtain ⟨⟨⟨hasBid, hasAsk⟩, bid⟩, ask⟩ := both
  cases side : u.ev.side with
  | buy => simp only [Nbbo.setBest, side]; exact ⟨⟨⟨trivial, hasAsk⟩, priced⟩, ask⟩
  | sell => simp only [Nbbo.setBest, side]; exact ⟨⟨⟨hasBid, trivial⟩, bid⟩, priced⟩
  | unknown => exact absurd side u.sided

/-- The features after an update that leaves two sides. -/
theorem features_step (cache : s.features.CacheSound) (u : BestUpdate symbol)
    (both : quoted (s.nbbo.setBest u.ev) = true) :
    (s.step u).features.stateOf symbol = updateState s.features.cfg (s.features.stateOf symbol) u.ev
        (s.nbbo.setBest u.ev) ∧
      (s.step u).reported = ((s.step u).features.stateOf symbol).ofiSum := by
  obtain ⟨-, -, states, out⟩ := cache.onEvent_spec u.ev (s.nbbo.setBest u.ev) 0
  have own := states symbol
  rw [if_pos ⟨both, u.own⟩] at own
  rw [if_pos both, u.own] at out
  refine ⟨own, ?_⟩
  simp only [step, out, own]
  rfl

/-- Before both sides are set the features hear nothing. -/
theorem features_silent (cache : s.features.CacheSound) (u : BestUpdate symbol)
    (missing : ¬ quoted (s.nbbo.setBest u.ev) = true) :
    (s.step u).features.stateOf symbol = s.features.stateOf symbol := by
  obtain ⟨-, -, states, -⟩ := cache.onEvent_spec u.ev (s.nbbo.setBest u.ev) 0
  have own := states symbol
  rwa [if_neg (fun found => missing found.1)] at own

theorem start_matched (symbol : UInt64) (signal : OfiSignal.Config) (features : FeatureConfig) :
    Matched symbol (start signal features) where
  signal := ⟨rfl, rfl, rfl, rfl, rfl, rfl⟩
  cache := initial_cacheSound features
  inside := Nat.zero_le _
  last := ⟨rfl, rfl⟩
  reported := fun both => by cases both

@[simp] theorem nbbo_step (s : OfiPair) (u : BestUpdate symbol) :
    (s.step u).nbbo = s.nbbo.setBest u.ev := rfl

theorem Matched.next (matched : Matched symbol s) (u : BestUpdate symbol) :
    Matched symbol (s.step u) := by
  have cache : (s.step u).features.CacheSound :=
    (matched.cache.onEvent_spec u.ev (s.nbbo.setBest u.ev) 0).1
  by_cases both : quoted (s.nbbo.setBest u.ev) = true
  · obtain ⟨own, reported⟩ := features_step matched.cache u both
    obtain ⟨-, -, inside, last⟩ :=
      updateState_ofi matched.inside s.features.cfg u.ev (s.nbbo.setBest u.ev)
    rw [← own] at inside last
    refine ⟨signal_next matched.signal u, cache, inside, ?_, fun _ => reported⟩
    rw [nbbo_step, if_pos both]
    exact last both
  · have own := features_silent matched.cache u both
    have before : ¬ quoted s.nbbo = true := fun had => both (quoted_setBest had u)
    refine ⟨signal_next matched.signal u, cache, ?_, ?_, fun had => absurd had both⟩
    · rw [own]
      exact matched.inside
    · have last := matched.last
      rw [if_neg before] at last
      rwa [own, nbbo_step, if_neg both]

/-- Two sides stay two sides, so the features report every further increment. -/
theorem reported_change (matched : Matched symbol s) (kept : KeepsWindows s u)
    (both : quoted s.nbbo = true) :
    (s.step u).reported - s.reported = ofiIncrement s.nbbo (s.nbbo.setBest u.ev) := by
  have after := quoted_setBest both u
  have last := matched.last
  rw [if_pos both] at last
  obtain ⟨own, reported⟩ := features_step matched.cache u after
  obtain ⟨rest, sum, -, -⟩ :=
    updateState_ofi matched.inside s.features.cfg u.ev (s.nbbo.setBest u.ev)
  have grown := kept.2 after
  rw [own, rest] at grown
  have gone : (live (s.features.stateOf symbol) ++
      [entering (s.features.stateOf symbol) (s.nbbo.setBest u.ev) u.ev.exchangeTsNs]).takeWhile
        (expired s.features.cfg u.ev.exchangeTsNs) = [] := by
    have parts := congrArg List.length (List.takeWhile_append_dropWhile
      (p := expired s.features.cfg u.ev.exchangeTsNs)
      (l := live (s.features.stateOf symbol) ++
        [entering (s.features.stateOf symbol) (s.nbbo.setBest u.ev) u.ev.exchangeTsNs]))
    rw [List.length_append, List.length_append, List.length_singleton] at parts
    exact List.length_eq_zero_iff.mp (by omega)
  rw [gone, deltaOfi_eq last] at sum
  rw [reported, own, sum, matched.reported both]
  simp only [sumOf, List.map_nil, List.sum_nil, incrementAfter, Option.elim_some]
  ring

theorem signal_change (kept : KeepsWindows s u) :
    (s.step u).signal.value - s.signal.value = s.signal.flow u.ev := by
  have added : (s.signal.update u.ev).value = s.signal.value + s.signal.flow u.ev :=
    OfiSignal.update_kept u.sided u.priced kept.1
  exact sub_eq_of_eq_add' added

end OfiPair

namespace OfiSignal

variable {s : OfiSignal ℚ} {nbbo : Nbbo} {ev : BookEvent}

/-- For the bid both have the same three cases. -/
theorem flow_buy (held : s.Holds nbbo) (set : nbbo.hasBid = true) (side : ev.side = .buy) :
    s.flow ev = ofiIncrement nbbo (nbbo.setBest ev) := by
  have exact_nat : ∀ n : Nat, (Binary64.ofNat n : ℚ) = n := fun _ => rfl
  have present : ¬ s.hasBid = false := by rw [held.hasBid, set]; decide
  rw [flow, if_pos side, bidFlow, if_neg present, held.bidPx, held.bidQty, Nbbo.setBest, side]
  simp only [exact_nat, ofiIncrement, gt_iff_lt, UInt32.lt_iff_toNat_lt, UInt32.le_iff_toNat_le,
    le_refl, if_true, ← UInt32.toNat_inj]
  rcases Nat.lt_trichotomy ev.price.toNat nbbo.bidPrice.toNat with down | level | up
  · simp [down.ne, down.not_gt, down.not_ge, down.le]
  · simp [level]
  · simp [up, up.not_ge, up.le]

/-- For the ask the signal has the cases of the bid, and agrees only where they do not matter. -/
theorem flow_sell_iff (held : s.Holds nbbo) (set : nbbo.hasAsk = true) (side : ev.side = .sell)
    (sized : 0 < ev.qty) :
    s.flow ev = ofiIncrement nbbo (nbbo.setBest ev) ↔ ev.price = nbbo.askPrice := by
  have exact_nat : ∀ n : Nat, (Binary64.ofNat n : ℚ) = n := fun _ => rfl
  have present : ¬ s.hasAsk = false := by rw [held.hasAsk, set]; decide
  have some_qty : (0 : ℚ) < ev.qty.toNat := by
    exact_mod_cast UInt32.lt_iff_toNat_lt.mp sized
  have old_qty : (0 : ℚ) ≤ nbbo.askQty.toNat := Nat.cast_nonneg _
  rw [flow, if_neg (by simp [side]), askFlow, if_neg present, held.askPx, held.askQty,
    Nbbo.setBest, side]
  simp only [exact_nat, ofiIncrement, gt_iff_lt, UInt32.lt_iff_toNat_lt, UInt32.le_iff_toNat_le,
    le_refl, if_true, ← UInt32.toNat_inj]
  rcases Nat.lt_trichotomy ev.price.toNat nbbo.askPrice.toNat with down | level | up
  · simp only [down.ne, down.not_gt, down.not_ge, down.le, if_true, if_false, iff_false]
    push_cast
    intro same
    linarith
  · simp [level]
  · simp only [up, up.ne', up.not_ge, up.le, if_true, if_false, iff_false]
    push_cast
    intro same
    linarith

end OfiSignal

namespace OfiPair
open FeaturePipeline

variable {symbol : UInt64} {s : OfiPair} {u : BestUpdate symbol}

theorem movesAlike_iff_keepsAskPrice (matched : Matched symbol s) (kept : KeepsWindows s u) :
    MovesAlike s u ↔ KeepsAskPrice s u := by
  refine forall_congr' fun both => ?_
  have two_sided := both
  simp only [quoted, Bool.and_eq_true] at two_sided
  obtain ⟨⟨⟨hasBid, hasAsk⟩, -⟩, -⟩ := two_sided
  rw [signal_change kept, reported_change matched kept both]
  cases side : u.ev.side with
  | buy => simp [OfiSignal.flow_buy matched.signal hasBid side]
  | sell => simp [OfiSignal.flow_sell_iff matched.signal hasAsk side u.sized]
  | unknown => exact absurd side u.sided

/-- As long as nothing leaves the windows, the two signals move alike at every update of the
run just when no update moves the ask of a two-sided quote. -/
theorem moves_alike_iff (signal : OfiSignal.Config) (features : FeatureConfig)
    (updates : List (BestUpdate symbol))
    (kept : Run.Along step KeepsWindows (start signal features) updates) :
    Run.Along step MovesAlike (start signal features) updates ↔
      Run.Along step KeepsAskPrice (start signal features) updates :=
  kept.congr_of_invariant (I := Matched symbol)
    (fun _ _ matched whole => movesAlike_iff_keepsAskPrice matched whole)
    (fun _ u matched _ _ => matched.next u) (start_matched symbol signal features)

def bestOf (side : Side) (sided : side ≠ .unknown) (price qty : UInt32) (priced : 0 < price)
    (sized : 0 < qty) : BestUpdate ({} : BookEvent).symbol.asU64 where
  ev := { side := side, price := price, qty := qty }
  sided := sided
  priced := priced
  sized := sized
  own := rfl

/-- The ask goes up from 4012 to 4013: the signal falls by the new 35, the features rise by the
old 39. -/
def askMoves : List (BestUpdate ({} : BookEvent).symbol.asU64) :=
  [bestOf .buy Side.buy_ne_unknown 4011 37 (by decide) (by decide),
    bestOf .sell Side.sell_ne_unknown 4012 39 (by decide) (by decide),
    bestOf .sell Side.sell_ne_unknown 4013 35 (by decide) (by decide)]

theorem ask_moves_opposite :
    Run.Along step KeepsWindows (start {} {}) askMoves ∧
      ¬ Run.Along step MovesAlike (start {} {}) askMoves := by
  constructor
  · simp only [askMoves, Run.along_cons, Run.along_nil, KeepsWindows, and_true]
    decide +kernel
  · simp only [askMoves, Run.along_cons, Run.along_nil, MovesAlike]
    decide +kernel

/-- Two more rounds on the bid and one on the ask, which keeps its price. -/
def askStays : List (BestUpdate ({} : BookEvent).symbol.asU64) :=
  [bestOf .buy Side.buy_ne_unknown 4011 37 (by decide) (by decide),
    bestOf .sell Side.sell_ne_unknown 4013 39 (by decide) (by decide),
    bestOf .sell Side.sell_ne_unknown 4013 35 (by decide) (by decide),
    bestOf .buy Side.buy_ne_unknown 4012 37 (by decide) (by decide),
    bestOf .buy Side.buy_ne_unknown 4011 35 (by decide) (by decide)]

theorem moves_alike_stays : Run.Along step MovesAlike (start {} {}) askStays := by
  refine (moves_alike_iff {} {} askStays ?_).mpr ?_
  · simp only [askStays, Run.along_cons, Run.along_nil, KeepsWindows, and_true]
    decide +kernel
  · simp only [askStays, Run.along_cons, Run.along_nil, KeepsAskPrice, and_true]
    decide +kernel

end OfiPair

end FeedHandler
