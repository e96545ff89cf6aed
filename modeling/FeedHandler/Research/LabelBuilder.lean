import FeedHandler.Core.Binary64
import FeedHandler.Lib.LowerBound
import FeedHandler.Lib.StableSort
import Mathlib.Data.Prod.Lex
import Mathlib.Tactic.FieldSimp

/-! The forward returns of the feature rows. A row is looked up by symbol and time in a sorted
timeline of the mids, and the first later observation past the horizon gives its label. -/
namespace FeedHandler

structure LabelHorizons where
  horizonsNs : List UInt64 := [1_000_000_000, 5_000_000_000, 10_000_000_000]

structure MidObservation (D : Type*) where
  symbolU64 : UInt64
  exchangeTsNs : UInt64
  mid : D
  deriving DecidableEq

/-- A label is `none` where the source stores the missing marker, a NaN. -/
structure LabeledFeatureRow (D : Type*) [Binary64 D] where
  symbolU64 : UInt64 := 0
  exchangeTsNs : UInt64 := 0
  mid : D := Binary64.ofNat 0
  forwardMidReturns : List (Option D) := []

def LabeledFeatureRow.observation {D : Type*} [Binary64 D] (row : LabeledFeatureRow D) :
    MidObservation D := ⟨row.symbolU64, row.exchangeTsNs, row.mid⟩

namespace LabelBuilder

variable {D : Type*} [Binary64 D]

open Binary64 (ofNat)

structure Config where
  horizons : LabelHorizons := {}

/-- The comparison `mid <= 0.0`. -/
def noMid (mid : D) : Bool := decide (mid < ofNat 0) || Binary64.equals mid (ofNat 0)

/-- The comparison of the sort and of the search. -/
def observedBefore (a b : MidObservation D) : Bool :=
  if a.symbolU64 ≠ b.symbolU64 then a.symbolU64 < b.symbolU64
  else a.exchangeTsNs < b.exchangeTsNs

def buildTimeline (rows : List (LabeledFeatureRow D)) : List (MidObservation D) :=
  ((rows.filter fun row => !noMid row.mid).map LabeledFeatureRow.observation).mergeSort
    fun a b => !observedBefore b a

/-- The loop of the search, which stands at position `i`. -/
def futureFrom (symbol targetTsNs : UInt64) : List (MidObservation D) → Nat → Nat
  | [], i => i
  | observation :: later, i =>
    if observation.symbolU64 ≠ symbol then futureFrom symbol targetTsNs later (i + 1)
    else if observation.exchangeTsNs ≥ targetTsNs then i
    else futureFrom symbol targetTsNs later (i + 1)

def findFutureMidIndex (timeline : List (MidObservation D)) (originIndex : Nat)
    (targetTsNs : UInt64) : Nat :=
  match timeline[originIndex]? with
  | none => timeline.length
  | some origin =>
    futureFrom origin.symbolU64 targetTsNs (timeline.drop (originIndex + 1)) (originIndex + 1)

def forwardMidReturn (timeline : List (MidObservation D)) (originIndex : Nat)
    (horizonNs : UInt64) : Option D :=
  match timeline[originIndex]? with
  | none => none
  | some origin =>
    if noMid origin.mid then none
    else
      let targetTs := origin.exchangeTsNs + horizonNs
      match timeline[findFutureMidIndex timeline originIndex targetTs]? with
      | none => none
      | some future =>
        if noMid future.mid then none else some ((future.mid - origin.mid) / origin.mid)

/-- Where the row is looked up. -/
def originIndex (timeline : List (MidObservation D)) (row : LabeledFeatureRow D) : Nat :=
  LowerBound.index (fun observation => observedBefore observation row.observation) timeline

def labelsOf (cfg : Config) (timeline : List (MidObservation D)) (row : LabeledFeatureRow D) :
    List (Option D) :=
  let missing := List.replicate cfg.horizons.horizonsNs.length none
  if noMid row.mid then missing
  else
    match timeline[originIndex timeline row]? with
    | none => missing
    | some found =>
      if found.symbolU64 ≠ row.symbolU64 ∨ found.exchangeTsNs ≠ row.exchangeTsNs then missing
      else cfg.horizons.horizonsNs.map (forwardMidReturn timeline (originIndex timeline row))

def attachLabels (cfg : Config) (rows : List (LabeledFeatureRow D)) : List (LabeledFeatureRow D) :=
  let timeline := buildTimeline rows
  rows.map fun row => { row with forwardMidReturns := labelsOf cfg timeline row }

section Timeline

variable {rows : List (LabeledFeatureRow ℚ)} {row : LabeledFeatureRow ℚ}
  {timeline : List (MidObservation ℚ)}

theorem noMid_eq (mid : ℚ) : noMid mid = !decide (0 < mid) := by
  have zero : (ofNat 0 : ℚ) = 0 := rfl
  have same : Binary64.equals mid (ofNat 0) = decide (mid = 0) := rfl
  rw [noMid, same, zero, ← decide_not, ← Bool.decide_or]
  exact decide_eq_decide.mpr (le_iff_lt_or_eq.symm.trans not_lt.symm)

theorem noMid_of_pos {mid : ℚ} (positive : 0 < mid) : noMid mid = false := by
  rw [noMid_eq, decide_eq_true positive, Bool.not_true]

theorem noMid_of_not_pos {mid : ℚ} (missing : ¬ 0 < mid) : noMid mid = true := by
  rw [noMid_eq, decide_eq_false missing, Bool.not_false]

/-- Symbol first, then time. -/
def timelineKey (observation : MidObservation ℚ) : ℕ ×ₗ ℕ :=
  toLex (observation.symbolU64.toNat, observation.exchangeTsNs.toNat)

theorem observedBefore_eq (a b : MidObservation ℚ) :
    observedBefore a b = decide (timelineKey a < timelineKey b) := by
  rw [observedBefore, timelineKey, timelineKey, Bool.eq_iff_iff, decide_eq_true_iff,
    Prod.Lex.toLex_lt_toLex]
  split
  · next other =>
    have differ : a.symbolU64.toNat ≠ b.symbolU64.toNat := fun same => other (UInt64.toNat_inj.mp same)
    simp [differ, UInt64.lt_iff_toNat_lt]
  · next same =>
    have equal := not_not.mp same
    simp [equal, UInt64.lt_iff_toNat_lt]

def hasMid (row : LabeledFeatureRow ℚ) : Bool := decide (0 < row.mid)

theorem buildTimeline_eq (rows : List (LabeledFeatureRow ℚ)) :
    buildTimeline rows =
      StableSort.sortBy timelineKey ((rows.filter hasMid).map LabeledFeatureRow.observation) := by
  have kept : (fun row : LabeledFeatureRow ℚ => !noMid row.mid) = hasMid := by
    funext row
    rw [noMid_eq, Bool.not_not]
    rfl
  have order : (fun a b : MidObservation ℚ => !observedBefore b a) =
      fun a b => decide (timelineKey a ≤ timelineKey b) := by
    funext a b
    rw [observedBefore_eq, ← decide_not, decide_eq_decide, not_lt]
  rw [buildTimeline, kept, order]
  rfl

/-- The test of the search for the future mid. -/
def ripe (symbol targetTsNs : UInt64) (observation : MidObservation ℚ) : Bool :=
  observation.symbolU64 = symbol && decide (observation.exchangeTsNs ≥ targetTsNs)

theorem futureFrom_eq (symbol targetTsNs : UInt64) (later : List (MidObservation ℚ)) (i : Nat) :
    futureFrom symbol targetTsNs later i = i + later.findIdx (ripe symbol targetTsNs) := by
  induction later generalizing i with
  | nil => rfl
  | cons observation later ih =>
    rw [futureFrom, List.findIdx_cons]
    by_cases own : observation.symbolU64 = symbol
    · by_cases past : observation.exchangeTsNs ≥ targetTsNs
      · have yes : ripe symbol targetTsNs observation = true := by simp [ripe, own, past]
        simp [own, past, yes]
      · have no : ripe symbol targetTsNs observation = false := by simp [ripe, past]
        rw [if_neg (not_not.mpr own), if_neg past, ih, no, cond_false]
        omega
    · have no : ripe symbol targetTsNs observation = false := by simp [ripe, own]
      rw [if_pos own, ih, no, cond_false]
      omega

/-- What stands at the index that the search returns. -/
theorem getElem?_findFutureMidIndex {i : Nat} {origin : MidObservation ℚ}
    (here : timeline[i]? = some origin) (targetTsNs : UInt64) :
    timeline[findFutureMidIndex timeline i targetTsNs]? =
      (timeline.drop (i + 1)).find? (ripe origin.symbolU64 targetTsNs) := by
  simp only [findFutureMidIndex, here, futureFrom_eq]
  rw [List.find?_eq_getElem?_findIdx, List.getElem?_drop]

theorem mem_buildTimeline {observation : MidObservation ℚ} :
    observation ∈ buildTimeline rows ↔ ∃ row ∈ rows, 0 < row.mid ∧ row.observation = observation := by
  rw [buildTimeline_eq, StableSort.mem_sortBy, List.mem_map]
  simp only [List.mem_filter, hasMid, decide_eq_true_eq, and_assoc]

/-- The timeline is searched as the rows are. -/
theorem find?_buildTimeline (p : MidObservation ℚ → Bool) :
    (buildTimeline rows).find? p =
      (StableSort.earliest (timelineKey ∘ LabeledFeatureRow.observation)
        (rows.filter fun row => hasMid row && p row.observation)).map
          LabeledFeatureRow.observation := by
  rw [buildTimeline_eq, StableSort.find?_sortBy, List.filter_map, List.filter_filter,
    StableSort.map_earliest]
  congr 2
  exact List.filter_congr fun row _ => Bool.and_comm _ _

/-- The first row with a mid at the symbol and time of `row`. -/
def firstObserved (rows : List (LabeledFeatureRow ℚ)) (row : LabeledFeatureRow ℚ) :
    Option (LabeledFeatureRow ℚ) :=
  rows.find? fun other => hasMid other && (decide (other.symbolU64 = row.symbolU64) &&
    decide (other.exchangeTsNs = row.exchangeTsNs))

theorem timelineKey_eq_iff {a b : MidObservation ℚ} :
    timelineKey a = timelineKey b ↔ a.symbolU64 = b.symbolU64 ∧ a.exchangeTsNs = b.exchangeTsNs := by
  rw [timelineKey, timelineKey, toLex_inj, Prod.mk.injEq, UInt64.toNat_inj, UInt64.toNat_inj]

/-- Where a row with a mid is looked up stands the first row of its symbol and time; what is in
front has a lesser key. -/
theorem origin_found (member : row ∈ rows) (positive : 0 < row.mid) :
    ∃ first front back, firstObserved rows row = some first ∧
      buildTimeline rows = front ++ first.observation :: back ∧
      originIndex (buildTimeline rows) row = front.length ∧
      (buildTimeline rows)[originIndex (buildTimeline rows) row]? = some first.observation ∧
      ∀ observation ∈ front, timelineKey observation < timelineKey row.observation := by
  have sorted : (buildTimeline rows).Pairwise fun a b => timelineKey a ≤ timelineKey b := by
    rw [buildTimeline_eq]
    exact StableSort.sortBy_sorted _ _
  have falls : (buildTimeline rows).Pairwise fun a b =>
      observedBefore b row.observation = true → observedBefore a row.observation = true :=
    sorted.imp fun {a b} le lower => by
      rw [observedBefore_eq, decide_eq_true_eq] at lower ⊢
      exact le.trans_lt lower
  obtain ⟨front, rest, whole, index, low, high⟩ := LowerBound.index_divides falls
  simp only [observedBefore_eq, decide_eq_true_eq, decide_eq_false_iff_not, not_lt] at low high
  -- among the rows with this key the timeline has the first one first
  have search : (buildTimeline rows).find?
      (fun observation => decide (timelineKey observation = timelineKey row.observation)) =
        (firstObserved rows row).map LabeledFeatureRow.observation := by
    rw [find?_buildTimeline, StableSort.earliest_of_tied (k := timelineKey row.observation),
      List.head?_filter, firstObserved]
    · congr 2
      funext other
      simp only [timelineKey_eq_iff, Bool.decide_and]
      rfl
    · intro other held
      have both := (List.mem_filter.mp held).2
      rw [Bool.and_eq_true, decide_eq_true_eq] at both
      exact both.2
  have held : row.observation ∈ rest := by
    have inside := mem_buildTimeline.mpr ⟨row, member, positive, rfl⟩
    rw [whole] at inside
    exact (List.mem_append.mp inside).resolve_left fun ahead => lt_irrefl _ (low _ ahead)
  have skipped : front.find?
      (fun observation => decide (timelineKey observation = timelineKey row.observation)) = none :=
    List.find?_eq_none.mpr fun observation ahead => by simpa using (low observation ahead).ne
  rw [whole, List.find?_append, skipped, Option.none_or] at search
  cases rest with
  | nil => cases held
  | cons observation back =>
    have least : timelineKey observation = timelineKey row.observation := by
      refine le_antisymm ?_ (high observation List.mem_cons_self)
      rw [whole] at sorted
      rcases List.mem_cons.mp held with same | behind
      · rw [same]
      · exact (List.pairwise_cons.mp (List.pairwise_append.mp sorted).2.1).1 _ behind
    rw [List.find?_cons_of_pos (by simpa using least)] at search
    obtain ⟨first, found, same⟩ := Option.map_eq_some_iff.mp search.symm
    have split : buildTimeline rows = front ++ first.observation :: back := by rw [whole, same]
    refine ⟨first, front, back, found, split, index, ?_, low⟩
    rw [originIndex, index, split, List.getElem?_append_right (Nat.le_refl _), Nat.sub_self]
    rfl

/-- Of the rows of a symbol that have a mid and are not before the target, the first one by time
and then by the original order. -/
def futureRow (rows : List (LabeledFeatureRow ℚ)) (symbol : UInt64) (target : Nat) :
    Option (LabeledFeatureRow ℚ) :=
  StableSort.earliest (fun row => row.exchangeTsNs.toNat) (rows.filter fun row =>
    hasMid row && (decide (row.symbolU64 = symbol) && decide (target ≤ row.exchangeTsNs.toNat)))

/-- The return of a row from its own mid to the first mid past the horizon. -/
def forwardReturn (rows : List (LabeledFeatureRow ℚ)) (row : LabeledFeatureRow ℚ)
    (horizonNs : UInt64) : Option ℚ :=
  if 0 < row.mid then
    (futureRow rows row.symbolU64 (row.exchangeTsNs.toNat + horizonNs.toNat)).map fun future =>
      (future.mid - row.mid) / row.mid
  else none

theorem firstObserved_spec {first : LabeledFeatureRow ℚ} (found : firstObserved rows row = some first) :
    0 < first.mid ∧ first.symbolU64 = row.symbolU64 ∧ first.exchangeTsNs = row.exchangeTsNs := by
  simpa [hasMid] using List.find?_some found

theorem futureRow_pos {symbol : UInt64} {target : Nat} {future : LabeledFeatureRow ℚ}
    (found : futureRow rows symbol target = some future) : 0 < future.mid := by
  have member := (FirstBest.scan_isFirstBest found).mem
  have both := (List.mem_filter.mp member).2
  rw [Bool.and_eq_true, hasMid, decide_eq_true_eq] at both
  exact both.1

theorem toNat_target {ts horizonNs : UInt64} (fits : ts.toNat + horizonNs.toNat < 2 ^ 64) :
    (ts + horizonNs).toNat = ts.toNat + horizonNs.toNat := by
  rw [UInt64.toNat_add, Nat.mod_eq_of_lt fits]

/-- An observation that is not behind the row is not past a positive horizon. -/
theorem not_ripe {observation : MidObservation ℚ} {horizonNs : UInt64} (later : 0 < horizonNs)
    (fits : row.exchangeTsNs.toNat + horizonNs.toNat < 2 ^ 64)
    (before : timelineKey observation ≤ timelineKey row.observation) :
    ¬ ripe row.symbolU64 (row.exchangeTsNs + horizonNs) observation = true := by
  intro is_ripe
  simp only [ripe, Bool.and_eq_true, decide_eq_true_eq, ge_iff_le, UInt64.le_iff_toNat_le,
    toNat_target fits] at is_ripe
  obtain ⟨own, past⟩ := is_ripe
  have more : 0 < horizonNs.toNat := UInt64.lt_iff_toNat_lt.mp later
  rw [timelineKey, timelineKey, Prod.Lex.toLex_le_toLex] at before
  simp only [own, LabeledFeatureRow.observation, lt_self_iff_false, true_and, false_or] at before
  omega

/-- Searching the whole timeline for a ripe observation finds the future row. -/
theorem find?_ripe (rows : List (LabeledFeatureRow ℚ)) {ts horizonNs : UInt64} (symbol : UInt64)
    (fits : ts.toNat + horizonNs.toNat < 2 ^ 64) :
    (buildTimeline rows).find? (ripe symbol (ts + horizonNs)) =
      (futureRow rows symbol (ts.toNat + horizonNs.toNat)).map LabeledFeatureRow.observation := by
  have tests : ∀ row : LabeledFeatureRow ℚ, ripe symbol (ts + horizonNs) row.observation =
      (decide (row.symbolU64 = symbol) &&
        decide (ts.toNat + horizonNs.toNat ≤ row.exchangeTsNs.toNat)) := by
    intro row
    simp only [ripe, ge_iff_le, UInt64.le_iff_toNat_le, toNat_target fits]
    rfl
  rw [find?_buildTimeline, futureRow]
  simp only [tests]
  congr 1
  -- within one symbol the key of the timeline is the time
  refine StableSort.earliest_congr fun a left b right => ?_
  have own : ∀ row ∈ rows.filter (fun row => hasMid row && (decide (row.symbolU64 = symbol) &&
      decide (ts.toNat + horizonNs.toNat ≤ row.exchangeTsNs.toNat))), row.symbolU64 = symbol := by
    intro row held
    have tested := (List.mem_filter.mp held).2
    simp only [Bool.and_eq_true, decide_eq_true_eq] at tested
    exact tested.2.1
  rw [Function.comp_apply, Function.comp_apply, timelineKey, timelineKey, Prod.Lex.toLex_lt_toLex]
  simp [LabeledFeatureRow.observation, own a left, own b right]

/-- The label is the return of the row that the search starts from. -/
theorem forwardMidReturn_eq (member : row ∈ rows) (positive : 0 < row.mid) {horizonNs : UInt64}
    (later : 0 < horizonNs) (fits : row.exchangeTsNs.toNat + horizonNs.toNat < 2 ^ 64) :
    ∃ first, firstObserved rows row = some first ∧
      forwardMidReturn (buildTimeline rows) (originIndex (buildTimeline rows) row) horizonNs =
        (futureRow rows row.symbolU64 (row.exchangeTsNs.toNat + horizonNs.toNat)).map fun future =>
          (future.mid - first.mid) / first.mid := by
  obtain ⟨first, front, back, found, whole, index, here, low⟩ := origin_found member positive
  obtain ⟨priced, symbol, time⟩ := firstObserved_spec found
  have early : ∀ observation ∈ front ++ [first.observation],
      ¬ ripe row.symbolU64 (row.exchangeTsNs + horizonNs) observation = true := by
    intro observation ahead
    refine not_ripe later fits ?_
    rcases List.mem_append.mp ahead with lower | last
    · exact (low observation lower).le
    · rw [List.mem_singleton.mp last]
      exact (timelineKey_eq_iff.mpr ⟨symbol, time⟩).le
  have searched : ((buildTimeline rows).drop (originIndex (buildTimeline rows) row + 1)).find?
      (ripe row.symbolU64 (row.exchangeTsNs + horizonNs)) =
        (futureRow rows row.symbolU64 (row.exchangeTsNs.toNat + horizonNs.toNat)).map
          LabeledFeatureRow.observation := by
    have split : buildTimeline rows = (front ++ [first.observation]) ++ back := by
      rw [whole, List.append_assoc]
      rfl
    rw [← find?_ripe rows row.symbolU64 fits, index, split, List.find?_append,
      List.find?_eq_none.mpr early, Option.none_or]
    congr 1
    exact List.drop_left' (by simp)
  refine ⟨first, found, ?_⟩
  have target := getElem?_findFutureMidIndex here (row.exchangeTsNs + horizonNs)
  simp only [LabeledFeatureRow.observation, symbol] at target
  rw [searched] at target
  simp only [forwardMidReturn, here, LabeledFeatureRow.observation, time, noMid_of_pos priced,
    Bool.false_eq_true, if_false, target]
  cases future : futureRow rows row.symbolU64 (row.exchangeTsNs.toNat + horizonNs.toNat) with
  | none => rfl
  | some future_row =>
    simp [LabeledFeatureRow.observation, noMid_of_pos (futureRow_pos future)]

/-- The label that a row gets for a horizon. -/
def labelAt (cfg : Config) (rows : List (LabeledFeatureRow ℚ)) (i k : Nat) : Option (Option ℚ) :=
  (attachLabels cfg rows)[i]?.bind fun row => row.forwardMidReturns[k]?

section Labels

variable {cfg : Config} {i k : Nat} {horizonNs : UInt64}

theorem labelAt_eq (at_row : rows[i]? = some row) :
    labelAt cfg rows i k = (labelsOf cfg (buildTimeline rows) row)[k]? := by
  rw [labelAt, attachLabels, List.getElem?_map, at_row]
  rfl

/-- The label of a row with a mid is the forward return from where the row was looked up. -/
theorem labelAt_positive (at_row : rows[i]? = some row)
    (at_horizon : cfg.horizons.horizonsNs[k]? = some horizonNs) (positive : 0 < row.mid) :
    labelAt cfg rows i k = some
      (forwardMidReturn (buildTimeline rows) (originIndex (buildTimeline rows) row) horizonNs) := by
  obtain ⟨first, -, -, found, -, -, here, -⟩ :=
    origin_found (List.mem_of_getElem? at_row) positive
  obtain ⟨-, symbol, time⟩ := firstObserved_spec found
  simp [labelAt_eq at_row, labelsOf, noMid_of_pos positive, here, LabeledFeatureRow.observation,
    symbol, time, at_horizon]

theorem labelAt_missing (at_row : rows[i]? = some row)
    (at_horizon : cfg.horizons.horizonsNs[k]? = some horizonNs) (missing : ¬ 0 < row.mid) :
    labelAt cfg rows i k = some none := by
  have inside : k < cfg.horizons.horizonsNs.length := (List.getElem?_eq_some_iff.mp at_horizon).1
  simp only [labelAt_eq at_row, labelsOf, noMid_of_not_pos missing, if_true]
  rw [List.getElem?_replicate, if_pos inside]

end Labels

/-- Returns to the same mid agree just when they start from the same mid. -/
theorem return_inj {future a b : ℚ} (future_pos : 0 < future) (a_pos : 0 < a) (b_pos : 0 < b) :
    (future - a) / a = (future - b) / b ↔ a = b := by
  constructor
  · intro same
    rw [sub_div, sub_div, div_self a_pos.ne', div_self b_pos.ne', sub_left_inj,
      div_eq_div_iff a_pos.ne' b_pos.ne'] at same
    exact (mul_left_cancel₀ future_pos.ne' same).symm
  · rintro rfl
    rfl

/-- A row gets its own forward return just when there is none to compute or the first row of its
symbol and time has the same mid. -/
theorem attachLabels_iff (cfg : Config) (rows : List (LabeledFeatureRow ℚ)) {i k : Nat}
    {row : LabeledFeatureRow ℚ} {horizonNs : UInt64} (at_row : rows[i]? = some row)
    (at_horizon : cfg.horizons.horizonsNs[k]? = some horizonNs) (later : 0 < horizonNs)
    (fits : row.exchangeTsNs.toNat + horizonNs.toNat < 2 ^ 64) :
    labelAt cfg rows i k = some (forwardReturn rows row horizonNs) ↔
      (0 < row.mid →
        (futureRow rows row.symbolU64 (row.exchangeTsNs.toNat + horizonNs.toNat)).isSome →
          (firstObserved rows row).map LabeledFeatureRow.mid = some row.mid) := by
  by_cases positive : 0 < row.mid
  · obtain ⟨first, found, label⟩ :=
      forwardMidReturn_eq (List.mem_of_getElem? at_row) positive later fits
    rw [labelAt_positive at_row at_horizon positive, label, forwardReturn, if_pos positive, found]
    cases future : futureRow rows row.symbolU64 (row.exchangeTsNs.toNat + horizonNs.toNat) with
    | none => simp
    | some future_row =>
      simp only [Option.map_some, Option.some.injEq, Option.isSome_some, forall_const, positive,
        return_inj (futureRow_pos future) (firstObserved_spec found).1 positive]
  · rw [labelAt_missing at_row at_horizon positive, forwardReturn, if_neg positive]
    simp [positive]

def midAt (ts : UInt64) (mid : ℚ) : LabeledFeatureRow ℚ where
  symbolU64 := 1
  exchangeTsNs := ts
  mid := mid

/-- Two rows at one time: the second one is labelled from the mid of the first. -/
theorem label_from_other_row :
    labelAt ⟨⟨[10]⟩⟩ [midAt 0 100, midAt 0 200, midAt 10 300] 1 0 = some (some 2) ∧
      forwardReturn [midAt 0 100, midAt 0 200, midAt 10 300] (midAt 0 200) 10 = some (1 / 2) := by
  constructor
  · have timeline : buildTimeline [midAt 0 100, midAt 0 200, midAt 10 300] =
        [⟨1, 0, 100⟩, ⟨1, 0, 200⟩, ⟨1, 10, 300⟩] := by
      refine List.mergeSort_of_pairwise ?_
      decide +kernel
    rw [labelAt, attachLabels, timeline]
    decide +kernel
  · decide +kernel

/-- A lone row at its time is labelled from its own mid. -/
theorem attachLabels_lone :
    labelAt ⟨⟨[10]⟩⟩ [midAt 0 100, midAt 10 300] 0 0 =
      some (forwardReturn [midAt 0 100, midAt 10 300] (midAt 0 100) 10) :=
  (attachLabels_iff ⟨⟨[10]⟩⟩ [midAt 0 100, midAt 10 300] (i := 0) (k := 0) rfl rfl (by decide)
    (by decide)).mpr fun _ _ => by decide +kernel

end Timeline

end LabelBuilder

end FeedHandler
