import FeedHandler.Lib.SlidingWindow
import FeedHandler.Phase3.FeatureStates
import Mathlib.Algebra.BigOperators.Group.List.Basic
import Mathlib.Data.Int.Cast.Lemmas
import Mathlib.Tactic.Abel

/-! The rolling order flow imbalance. The source keeps a running sum over a buffer whose head
moves past what left the window, and cuts the buffer now and then; the sum stays that of the
increments inside the window. -/
namespace FeedHandler

/-- The order flow imbalance between two quotes: what was added to the best bid less what was
taken from it, and the other way round for the ask. A side that keeps its price counts its
quantity both ways. -/
def ofiIncrement (before after : Nbbo) : Int :=
  (if before.bidPrice ≤ after.bidPrice then (after.bidQty.toNat : Int) else 0) -
    (if after.bidPrice ≤ before.bidPrice then (before.bidQty.toNat : Int) else 0) -
    (if after.askPrice ≤ before.askPrice then (after.askQty.toNat : Int) else 0) +
    (if before.askPrice ≤ after.askPrice then (before.askQty.toNat : Int) else 0)

namespace FeaturePipeline

open Binary64 (ofNat)

section Buffer

variable {cfg : FeatureConfig} {s : FeatureState ℚ} {nbbo : Nbbo} {ts : UInt64}

/-- The part of the buffer that is still summed up. -/
def live (s : FeatureState ℚ) : List (OfiPoint ℚ) := s.ofiWindow.drop s.ofiHead

def sumOf (points : List (OfiPoint ℚ)) : ℚ := (points.map OfiPoint.value).sum

/-- The test of the loop that moves the head. -/
def expired (cfg : FeatureConfig) (now : UInt64) (point : OfiPoint ℚ) : Bool :=
  now - point.ts > cfg.ofiWindowNs

theorem expirePoints_eq (cfg : FeatureConfig) (now : UInt64) (points : List (OfiPoint ℚ)) (sum : ℚ)
    (head : Nat) :
    expirePoints cfg now points sum head =
      (sum - sumOf (points.takeWhile (expired cfg now)),
        head + (points.takeWhile (expired cfg now)).length) := by
  induction points generalizing sum head with
  | nil => simp [expirePoints, sumOf]
  | cons point later ih =>
    rw [expirePoints, List.takeWhile_cons]
    by_cases gone : now - point.ts > cfg.ofiWindowNs
    · have yes : expired cfg now point = true := decide_eq_true gone
      rw [if_pos gone, ih, if_pos yes]
      simp only [sumOf, List.map_cons, List.sum_cons, List.length_cons, Prod.mk.injEq]
      exact ⟨by ring, by omega⟩
    · have no : expired cfg now point = false := decide_eq_false gone
      rw [if_neg gone, no]
      simp [sumOf]

/-- The point that an update enters. -/
def entering (s : FeatureState ℚ) (nbbo : Nbbo) (ts : UInt64) : OfiPoint ℚ := ⟨ts, deltaOfi s nbbo⟩

/-- Whether the buffer is cut or not, what is live loses what has expired, and so does the
sum. -/
theorem updateOfi_live (inside : s.ofiHead ≤ s.ofiWindow.length) (cfg : FeatureConfig)
    (nbbo : Nbbo) (ts : UInt64) :
    let gone := (live s ++ [entering s nbbo ts]).takeWhile (expired cfg ts)
    live (updateOfi cfg s nbbo ts) = (live s ++ [entering s nbbo ts]).dropWhile (expired cfg ts) ∧
      (updateOfi cfg s nbbo ts).ofiSum = s.ofiSum + deltaOfi s nbbo - sumOf gone ∧
      (updateOfi cfg s nbbo ts).ofiHead ≤ (updateOfi cfg s nbbo ts).ofiWindow.length := by
  intro gone
  have entered : (s.ofiWindow ++ [entering s nbbo ts]).drop s.ofiHead =
      live s ++ [entering s nbbo ts] := List.drop_append_of_le_length inside
  have moved : expirePoints cfg ts ((s.ofiWindow ++ [entering s nbbo ts]).drop s.ofiHead)
      (s.ofiSum + deltaOfi s nbbo) s.ofiHead =
        (s.ofiSum + deltaOfi s nbbo - sumOf gone, s.ofiHead + gone.length) := by
    rw [entered, expirePoints_eq]
  have rest : (s.ofiWindow ++ [entering s nbbo ts]).drop (s.ofiHead + gone.length) =
      (live s ++ [entering s nbbo ts]).dropWhile (expired cfg ts) := by
    rw [← List.drop_drop, entered, SlidingWindow.drop_length_takeWhile]
  have bound : s.ofiHead + gone.length ≤ (s.ofiWindow ++ [entering s nbbo ts]).length := by
    have short : gone.length ≤ (live s ++ [entering s nbbo ts]).length :=
      (List.takeWhile_sublist _).length_le
    rw [← entered, List.length_drop] at short
    have whole : s.ofiHead ≤ (s.ofiWindow ++ [entering s nbbo ts]).length := by
      rw [List.length_append]
      omega
    omega
  simp only [entering] at moved rest bound
  simp only [live, updateOfi, moved]
  by_cases cut : s.ofiHead + gone.length > 4096 ∧
      (s.ofiHead + gone.length) * 2 > (s.ofiWindow ++ [(⟨ts, deltaOfi s nbbo⟩ : OfiPoint ℚ)]).length
  · simp only [if_pos cut, List.drop_zero]
    exact ⟨rest, trivial, Nat.zero_le _⟩
  · simp only [if_neg cut]
    exact ⟨rest, trivial, bound⟩

/-- The fields that the order flow imbalance is kept in. -/
def ofiPart (s : FeatureState ℚ) :
    (UInt32 × UInt32 × UInt32 × UInt32) × ℚ × List (OfiPoint ℚ) × Nat :=
  ((s.lastBidPrice, s.lastBidQty, s.lastAskPrice, s.lastAskQty), s.ofiSum, s.ofiWindow, s.ofiHead)

theorem ofiPart_closeBuckets (cfg : FeatureConfig) (fuel : Nat) (s : FeatureState ℚ) :
    ofiPart (closeBuckets cfg fuel s) = ofiPart s := by
  induction fuel generalizing s with
  | zero => rfl
  | succ fuel ih =>
    have closed : ofiPart (closeBucket cfg s) = ofiPart s := by
      simp only [closeBucket]
      split
      · rfl
      · split <;> rfl
    rw [closeBuckets]
    split
    · rw [ih, closed]
    · rfl

/-- A trade does not touch the imbalance. -/
theorem ofiPart_updateState (cfg : FeatureConfig) (s : FeatureState ℚ) (ev : BookEvent)
    (nbbo : Nbbo) :
    ofiPart (updateState cfg s ev nbbo) = ofiPart (updateOfi cfg s nbbo ev.exchangeTsNs) := by
  unfold updateState
  split
  · exact ofiPart_closeBuckets cfg _ _
  · rfl

/-- The state remembers this quote, or has seen none. -/
def Remembers (s : FeatureState ℚ) : Option Nbbo → Prop
  | none => s.lastBidPrice = 0 ∧ s.lastAskPrice = 0
  | some quote => quoted quote = true ∧ s.lastBidPrice = quote.bidPrice ∧
      s.lastBidQty = quote.bidQty ∧ s.lastAskPrice = quote.askPrice ∧ s.lastAskQty = quote.askQty

/-- What a two-sided quote does to the imbalance. -/
theorem updateState_ofi (inside : s.ofiHead ≤ s.ofiWindow.length) (cfg : FeatureConfig)
    (ev : BookEvent) (nbbo : Nbbo) :
    let gone := (live s ++ [entering s nbbo ev.exchangeTsNs]).takeWhile (expired cfg ev.exchangeTsNs)
    let after := updateState cfg s ev nbbo
    live after = (live s ++ [entering s nbbo ev.exchangeTsNs]).dropWhile (expired cfg ev.exchangeTsNs) ∧
      after.ofiSum = s.ofiSum + deltaOfi s nbbo - sumOf gone ∧
      after.ofiHead ≤ after.ofiWindow.length ∧ (quoted nbbo = true → Remembers after (some nbbo)) := by
  have part := ofiPart_updateState cfg s ev nbbo
  simp only [ofiPart, Prod.mk.injEq] at part
  obtain ⟨⟨bid, bidQty, ask, askQty⟩, sum, window, head⟩ := part
  obtain ⟨rest, total, bound⟩ := updateOfi_live inside cfg nbbo ev.exchangeTsNs
  refine ⟨?_, sum.trans total, ?_, fun both => ⟨both, bid, bidQty, ask, askQty⟩⟩
  · rw [live, window, head]
    exact rest
  · rw [window, head]
    exact bound

/-- The increment that a quote brings after the one before it, if there is one. -/
def incrementAfter (before : Option Nbbo) (nbbo : Nbbo) : Int :=
  before.elim 0 fun quote => ofiIncrement quote nbbo

/-- The three cases of the bid add up to one count of each quantity. -/
theorem bid_cases (old new : UInt32) (oldQty newQty : ℚ) :
    (if new > old then 0 + newQty else if new < old then 0 - oldQty else 0 + (newQty - oldQty)) =
      (if old ≤ new then newQty else 0) - if new ≤ old then oldQty else 0 := by
  simp only [gt_iff_lt, UInt32.lt_iff_toNat_lt, UInt32.le_iff_toNat_le]
  rcases Nat.lt_trichotomy old.toNat new.toNat with up | level | down
  · simp [up, up.le, up.not_ge]
  · simp [level]
  · simp [down, down.le, down.not_ge, down.not_gt]

theorem ask_cases (old new : UInt32) (flow oldQty newQty : ℚ) :
    (if new < old then flow - newQty else if new > old then flow + oldQty
        else flow - (newQty - oldQty)) =
      flow - (if new ≤ old then newQty else 0) + if old ≤ new then oldQty else 0 := by
  simp only [gt_iff_lt, UInt32.lt_iff_toNat_lt, UInt32.le_iff_toNat_le]
  rcases Nat.lt_trichotomy old.toNat new.toNat with up | level | down
  · simp [up, up.le, up.not_ge, up.not_gt]
  · simp only [level, lt_irrefl, if_false, le_refl, if_true]
    ring
  · simp [down, down.le, down.not_ge]

theorem deltaOfi_eq {before : Option Nbbo} (remembers : Remembers s before) (nbbo : Nbbo) :
    deltaOfi s nbbo = incrementAfter before nbbo := by
  cases before with
  | none =>
    obtain ⟨bid, ask⟩ := remembers
    simp [deltaOfi, bid, ask, incrementAfter]
    rfl
  | some quote =>
    obtain ⟨two_sided, bid, bidQty, ask, askQty⟩ := remembers
    have seen : quote.bidPrice ≠ 0 ∨ quote.askPrice ≠ 0 := by
      simp only [quoted, Bool.and_eq_true, bne_iff_ne] at two_sided
      exact .inl two_sided.1.2
    have exact_nat : ∀ n : Nat, (ofNat n : ℚ) = n := fun _ => rfl
    simp only [deltaOfi, bid, bidQty, ask, askQty, if_pos seen, incrementAfter, Option.elim_some,
      ofiIncrement, exact_nat, Nat.cast_zero, bid_cases, ask_cases]
    push_cast
    rfl

end Buffer

/-- The increments of the two-sided quotes of a symbol with their times; `before` is the quote
in front of them, and the first quote of all brings none. -/
def ofiPoints : Option Nbbo → List (FeatureInput ℚ) → List (OfiPoint Int)
  | _, [] => []
  | before, input :: rest =>
    ⟨input.ev.exchangeTsNs, incrementAfter before input.nbbo⟩ :: ofiPoints (some input.nbbo) rest

def timeKey (point : OfiPoint Int) : Nat := point.ts.toNat

/-- The sum of the increments that are no older than the window, where a window that is longer
than all time has passed reaches back to the beginning. -/
def rollingOfi (windowNs now : UInt64) (points : List (OfiPoint Int)) : Int :=
  ((SlidingWindow.window timeKey (now.toNat - windowNs.toNat) points).map OfiPoint.value).sum

def exactPoint (point : OfiPoint Int) : OfiPoint ℚ := ⟨point.ts, point.value⟩

section Quotes

variable {cfg : FeatureConfig} {s : FeatureState ℚ} {quotes : List (FeatureInput ℚ)}
  {input : FeatureInput ℚ}

def lastNbbo (quotes : List (FeatureInput ℚ)) : Option Nbbo := quotes.getLast?.map (·.nbbo)

theorem ofiPoints_concat (before : Option Nbbo) (quotes : List (FeatureInput ℚ))
    (input : FeatureInput ℚ) :
    ofiPoints before (quotes ++ [input]) = ofiPoints before quotes ++
      [⟨input.ev.exchangeTsNs, incrementAfter ((lastNbbo quotes).or before) input.nbbo⟩] := by
  induction quotes generalizing before with
  | nil => rfl
  | cons first rest ih =>
    rw [List.cons_append, ofiPoints, ih, ofiPoints, List.cons_append]
    congr 4
    cases rest with
    | nil => rfl
    | cons second others => simp [lastNbbo, List.getLast?_cons]

theorem ofiPoints_times (before : Option Nbbo) (quotes : List (FeatureInput ℚ)) :
    (ofiPoints before quotes).map OfiPoint.ts = quotes.map (·.ev.exchangeTsNs) := by
  induction quotes generalizing before with
  | nil => rfl
  | cons first rest ih => simp only [ofiPoints, List.map_cons, ih]

/-- The lower end of the window after these quotes. -/
def lowEnd (cfg : FeatureConfig) (quotes : List (FeatureInput ℚ)) : Nat :=
  (quotes.getLast?.map (·.ev.exchangeTsNs.toNat)).getD 0 - cfg.ofiWindowNs.toNat

/-- The state after the two-sided quotes of a symbol. -/
structure Rolled (cfg : FeatureConfig) (quotes : List (FeatureInput ℚ)) (s : FeatureState ℚ) :
    Prop where
  inside : s.ofiHead ≤ s.ofiWindow.length
  sum : s.ofiSum = sumOf (live s)
  last : Remembers s (lastNbbo quotes)
  window : live s =
    (SlidingWindow.window timeKey (lowEnd cfg quotes) (ofiPoints none quotes)).map exactPoint

theorem initial_rolled (cfg : FeatureConfig) : Rolled cfg [] {} where
  inside := Nat.zero_le _
  sum := rfl
  last := ⟨rfl, rfl⟩
  window := rfl

/-- A point has expired when it is below the lower end of the window. -/
theorem expired_iff {now : UInt64} {point : OfiPoint Int} (earlier : point.ts ≤ now) :
    expired cfg now (exactPoint point) =
      decide (timeKey point < now.toNat - cfg.ofiWindowNs.toNat) := by
  have same : (exactPoint point).ts = point.ts := rfl
  have ordered := UInt64.le_iff_toNat_le.mp earlier
  rw [expired, same, decide_eq_decide, gt_iff_lt, UInt64.lt_iff_toNat_lt,
    UInt64.toNat_sub_of_le _ _ earlier, timeKey]
  omega

/-- The times of the inputs do not decrease. -/
def TimesOrdered (inputs : List (FeatureInput ℚ)) : Prop :=
  inputs.Pairwise fun a b => a.ev.exchangeTsNs ≤ b.ev.exchangeTsNs

theorem points_sorted (ordered : TimesOrdered quotes) (before : Option Nbbo) :
    (ofiPoints before quotes).Pairwise fun a b => timeKey a ≤ timeKey b := by
  have times : ((ofiPoints before quotes).map OfiPoint.ts).Pairwise (· ≤ ·) := by
    rw [ofiPoints_times]
    exact List.pairwise_map.mpr ordered
  exact (List.pairwise_map.mp times).imp UInt64.le_iff_toNat_le.mp

theorem lowEnd_concat (quotes : List (FeatureInput ℚ)) (input : FeatureInput ℚ) :
    lowEnd cfg (quotes ++ [input]) = input.ev.exchangeTsNs.toNat - cfg.ofiWindowNs.toNat := by
  simp [lowEnd]

theorem lowEnd_le (ordered : TimesOrdered (quotes ++ [input])) :
    lowEnd cfg quotes ≤ lowEnd cfg (quotes ++ [input]) := by
  rw [lowEnd_concat, lowEnd]
  cases last : quotes.getLast? with
  | none => simp
  | some earlier =>
    have before := (List.pairwise_append.mp ordered).2.2 earlier (List.mem_of_getLast? last) input
      (List.mem_singleton_self input)
    exact Nat.sub_le_sub_right (UInt64.le_iff_toNat_le.mp before) _

/-- The points of a list of quotes are no later than its last quote. -/
theorem points_le (ordered : TimesOrdered (quotes ++ [input])) {point : OfiPoint Int}
    (member : point ∈ ofiPoints none (quotes ++ [input])) : point.ts ≤ input.ev.exchangeTsNs := by
  have time := List.mem_map_of_mem (f := OfiPoint.ts) member
  rw [ofiPoints_times, List.map_append, List.mem_append] at time
  rcases time with early | here
  · obtain ⟨earlier, held, same⟩ := List.mem_map.mp early
    rw [← same]
    exact (List.pairwise_append.mp ordered).2.2 earlier held input (List.mem_singleton_self input)
  · have same : point.ts = input.ev.exchangeTsNs := by simpa using here
    rw [same]
    exact UInt64.le_refl _

theorem sumOf_append (xs ys : List (OfiPoint ℚ)) : sumOf (xs ++ ys) = sumOf xs + sumOf ys := by
  simp only [sumOf, List.map_append, List.sum_append]

/-- One more quote: the window slides up to its time and takes in its increment. -/
theorem Rolled.next (rolled : Rolled cfg quotes s) (both : quoted input.nbbo = true)
    (ordered : TimesOrdered (quotes ++ [input])) :
    Rolled cfg (quotes ++ [input]) (updateState cfg s input.ev input.nbbo) := by
  obtain ⟨rest, sum, bound, last⟩ := updateState_ofi rolled.inside cfg input.ev input.nbbo
  refine ⟨bound, ?_, ?_, ?_⟩
  · have whole := congrArg sumOf (List.takeWhile_append_dropWhile
      (p := expired cfg input.ev.exchangeTsNs)
      (l := live s ++ [entering s input.nbbo input.ev.exchangeTsNs]))
    have single : sumOf [entering s input.nbbo input.ev.exchangeTsNs] = deltaOfi s input.nbbo := by
      simp [sumOf, entering]
    rw [sumOf_append, sumOf_append, single, ← rolled.sum] at whole
    rw [sum, rest]
    linarith
  · rw [lastNbbo, List.getLast?_concat]
    exact last both
  · have enters : entering s input.nbbo input.ev.exchangeTsNs =
        exactPoint ⟨input.ev.exchangeTsNs, incrementAfter ((lastNbbo quotes).or none) input.nbbo⟩ := by
      rw [Option.or_none, entering, deltaOfi_eq rolled.last]
      rfl
    have sorted := points_sorted ordered none
    have below : ∀ point ∈ ofiPoints none (quotes ++ [input]),
        expired cfg input.ev.exchangeTsNs (exactPoint point) =
          decide (timeKey point < input.ev.exchangeTsNs.toNat - cfg.ofiWindowNs.toNat) :=
      fun point member => expired_iff (points_le ordered member)
    rw [ofiPoints_concat] at sorted below
    rw [rest, rolled.window, enters, ofiPoints_concat]
    refine SlidingWindow.slide_map sorted (lowEnd_le ordered) ?_
    rw [lowEnd_concat]
    exact below

theorem stateAfter_rolled (cfg : FeatureConfig) (two_sided : ∀ input ∈ quotes, quoted input.nbbo = true)
    (ordered : TimesOrdered quotes) : Rolled cfg quotes (stateAfter cfg quotes) := by
  induction quotes using List.reverseRecOn with
  | nil => exact initial_rolled cfg
  | append_singleton past input ih =>
    have earlier := ih (fun input held => two_sided input (List.mem_append_left _ held))
      (List.pairwise_append.mp ordered).1
    rw [stateAfter, List.foldl_append]
    exact earlier.next (two_sided input (by simp)) ordered

/-- The running sum is the sum over the window. -/
theorem Rolled.ofiSum_eq (rolled : Rolled cfg (quotes ++ [input]) s) :
    s.ofiSum = rollingOfi cfg.ofiWindowNs input.ev.exchangeTsNs (ofiPoints none (quotes ++ [input])) := by
  rw [rolled.sum, rolled.window, lowEnd_concat, rollingOfi, sumOf, List.map_map]
  refine Eq.symm ((map_list_sum (Int.castAddHom ℚ) _).trans ?_)
  rw [List.map_map]
  rfl

end Quotes

/-- Whatever came before, the imbalance that is reported is the sum of the increments of that
symbol's two-sided quotes up to now that are in the window. -/
theorem ofi_rolling (cfg : FeatureConfig) (inputs : List (FeatureInput ℚ)) (input : FeatureInput ℚ)
    (ordered : (inputs ++ [input]).Pairwise fun a b =>
      a.ev.symbol.asU64 = b.ev.symbol.asU64 → a.ev.exchangeTsNs ≤ b.ev.exchangeTsNs) :
    ∀ fv ∈ ((reached cfg inputs).onEvent input.ev input.nbbo input.queueAheadHint).2,
      fv.ofi = rollingOfi cfg.ofiWindowNs input.ev.exchangeTsNs
        (ofiPoints none ((inputs ++ [input]).filter (·.updates input.ev.symbol.asU64))) := by
  intro fv made
  have both : quoted input.nbbo = true := by
    have answers : ((reached cfg inputs).onEvent input.ev input.nbbo input.queueAheadHint).2.isSome =
        quoted input.nbbo := onEvent_isSome
    rw [← answers, made]
    rfl
  obtain ⟨-, -, states⟩ := reached_spec cfg inputs
  rw [(reached_step cfg inputs both).2, states] at made
  cases made
  have updates : input.updates input.ev.symbol.asU64 = true :=
    FeatureInput.updates_iff.mpr ⟨both, rfl⟩
  have symbols : ∀ i ∈ (inputs ++ [input]).filter (·.updates input.ev.symbol.asU64),
      i.ev.symbol.asU64 = input.ev.symbol.asU64 :=
    fun i held => (FeatureInput.updates_iff.mp (List.mem_filter.mp held).2).2
  have own : (inputs ++ [input]).filter (·.updates input.ev.symbol.asU64) =
      inputs.filter (·.updates input.ev.symbol.asU64) ++ [input] := by
    rw [List.filter_append, List.filter_singleton, updates, cond_true]
  have times : TimesOrdered (inputs.filter (·.updates input.ev.symbol.asU64) ++ [input]) := by
    rw [← own]
    refine (ordered.sublist List.filter_sublist).imp_of_mem fun left right following => ?_
    exact following ((symbols _ left).trans (symbols _ right).symm)
  have past := stateAfter_rolled cfg
    (fun i held => (FeatureInput.updates_iff.mp (List.mem_filter.mp held).2).1)
    (List.pairwise_append.mp times).1
  rw [own]
  exact (past.next both times).ofiSum_eq

/-- The quote at a time with this much on the bid, at one price throughout. -/
def bidAt (ts : UInt64) (bidQty : UInt32) : FeatureInput ℚ where
  ev := { exchangeTsNs := ts }
  nbbo := { hasBid := true, hasAsk := true, bidPrice := 100, bidQty := bidQty, askPrice := 102 }
  queueAheadHint := 0

/-- The increment of 20 at time 5 has left a window of ten at time 20. -/
theorem ofi_rolling_expired :
    ((reached { ofiWindowNs := 10 } [bidAt 0 10, bidAt 5 30]).onEvent (bidAt 20 45).ev
        (bidAt 20 45).nbbo 0).2.map FeatureVector.ofi =
      some ((rollingOfi 10 20 (ofiPoints none [bidAt 0 10, bidAt 5 30, bidAt 20 45]) : Int) : ℚ) := by
  have answers : ((reached { ofiWindowNs := 10 } [bidAt 0 10, bidAt 5 30]).onEvent (bidAt 20 45).ev
      (bidAt 20 45).nbbo 0).2.isSome = quoted (bidAt 20 45).nbbo := onEvent_isSome
  obtain ⟨fv, made⟩ := Option.isSome_iff_exists.mp (answers.trans rfl)
  rw [made]
  exact congrArg some (ofi_rolling { ofiWindowNs := 10 } [bidAt 0 10, bidAt 5 30] (bidAt 20 45)
    (by simp [bidAt]) fv made)

example : rollingOfi 10 20 (ofiPoints none [bidAt 0 10, bidAt 5 30, bidAt 20 45]) = 15 := by decide

end FeaturePipeline

end FeedHandler
