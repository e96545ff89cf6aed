import FeedHandler.Lib.ListBlocks
import FeedHandler.Research.LabelBuilder

/-! Purged cross-validation. The rows are put in the order of time and cut into blocks; a fold
tests on one block and trains on the rows outside a window around it. -/
namespace FeedHandler

structure CvFold where
  foldId : Nat := 0
  testStartNs : UInt64 := 0
  testEndNs : UInt64 := 0
  trainIndices : List Nat := []
  testIndices : List Nat := []
  deriving DecidableEq, Repr

structure PurgedCvConfig where
  nFolds : Nat := 5
  purgeNs : UInt64 := 2_000_000_000
  embargoNs : UInt64 := 1_000_000_000

structure PurgedCv where
  cfg : PurgedCvConfig := {}

namespace PurgedCv

section Split

variable {D : Type*} [Binary64 D]

def timeAt (rows : List (LabeledFeatureRow D)) (idx : Nat) : UInt64 :=
  (rows[idx]?.map LabeledFeatureRow.exchangeTsNs).getD 0

def indexBefore (rows : List (LabeledFeatureRow D)) (a b : Nat) : Bool :=
  if timeAt rows a ≠ timeAt rows b then timeAt rows a < timeAt rows b else a < b

/-- The row indices in the order of time. -/
def order (rows : List (LabeledFeatureRow D)) : List Nat :=
  (List.range rows.length).mergeSort fun a b => !indexBefore rows b a

def foldSize (cfg : PurgedCvConfig) (count : Nat) : Nat := max 1 (count / cfg.nFolds)

/-- The positions of the test block, from `blockStart` up to before `blockEnd`. -/
def blockStart (cfg : PurgedCvConfig) (count f : Nat) : Nat := f * foldSize cfg count

def blockEnd (cfg : PurgedCvConfig) (count f : Nat) : Nat :=
  if f + 1 = cfg.nFolds then count else min count ((f + 1) * foldSize cfg count)

def purgeStart (cfg : PurgedCvConfig) (testStartNs : UInt64) : UInt64 :=
  if testStartNs > cfg.purgeNs then testStartNs - cfg.purgeNs else 0

/-- One turn of the loop; a fold without test rows is left out. -/
def foldAt (cfg : PurgedCvConfig) (rows : List (LabeledFeatureRow D)) (order : List Nat) (f : Nat) :
    Option CvFold :=
  let start := blockStart cfg order.length f
  let stop := blockEnd cfg order.length f
  if start ≥ stop then none
  else
    let testStartNs := timeAt rows (order.getD start 0)
    let testEndNs := timeAt rows (order.getD (stop - 1) 0)
    let embargoEnd := testEndNs + cfg.embargoNs
    some
      { foldId := f
        testStartNs := testStartNs
        testEndNs := testEndNs
        testIndices := (order.take stop).drop start
        trainIndices := (order.zipIdx.filter fun entry =>
          let ts := timeAt rows entry.1
          let inTest := decide (start ≤ entry.2) && decide (entry.2 < stop)
          let inPurgeEmbargo := decide (ts ≥ purgeStart cfg testStartNs) && decide (ts ≤ embargoEnd)
          !inTest && !inPurgeEmbargo).map Prod.fst }

def split (cv : PurgedCv) (rows : List (LabeledFeatureRow D)) : List CvFold :=
  if rows.isEmpty || decide (cv.cfg.nFolds < 2) then []
  else (List.range cv.cfg.nFolds).filterMap (foldAt cv.cfg rows (order rows))

def isLeakySplit (fold : CvFold) (labelHorizonNs : UInt64) (rows : List (LabeledFeatureRow D)) :
    Bool :=
  fold.trainIndices.any fun idx =>
    decide (timeAt rows idx + labelHorizonNs ≥ fold.testStartNs) &&
      decide (timeAt rows idx ≤ fold.testEndNs)

end Split

section Order

variable {D : Type*} [Binary64 D] {rows : List (LabeledFeatureRow D)} {i j : Nat}

def orderKey (rows : List (LabeledFeatureRow D)) (idx : Nat) : ℕ ×ₗ ℕ :=
  toLex ((timeAt rows idx).toNat, idx)

theorem orderKey_lt_iff : orderKey rows i < orderKey rows j ↔
    (timeAt rows i).toNat < (timeAt rows j).toNat ∨ timeAt rows i = timeAt rows j ∧ i < j := by
  rw [orderKey, orderKey, Prod.Lex.toLex_lt_toLex, UInt64.toNat_inj]

theorem orderKey_injective (rows : List (LabeledFeatureRow D)) :
    Function.Injective (orderKey rows) :=
  fun _ _ same => (Prod.mk.inj (toLex_inj.mp same)).2

theorem time_le_of_lt (before : orderKey rows i < orderKey rows j) :
    (timeAt rows i).toNat ≤ (timeAt rows j).toNat := by
  rcases orderKey_lt_iff.mp before with less | ⟨same, -⟩
  · exact less.le
  · rw [same]

theorem indexBefore_eq (a b : Nat) :
    indexBefore rows a b = decide (orderKey rows a < orderKey rows b) := by
  rw [Bool.eq_iff_iff, decide_eq_true_iff, orderKey_lt_iff, indexBefore]
  split
  · next other => simp [other, UInt64.lt_iff_toNat_lt]
  · next same => simp [not_not.mp same]

theorem order_eq (rows : List (LabeledFeatureRow D)) :
    order rows = StableSort.sortBy (orderKey rows) (List.range rows.length) := by
  have test : (fun a b => !indexBefore rows b a) =
      fun a b => decide (orderKey rows a ≤ orderKey rows b) := by
    funext a b
    rw [indexBefore_eq, ← decide_not, decide_eq_decide, not_lt]
  rw [order, test]
  rfl

theorem order_perm (rows : List (LabeledFeatureRow D)) : (order rows).Perm (List.range rows.length) := by
  rw [order_eq]
  exact StableSort.sortBy_perm _ _

theorem order_nodup (rows : List (LabeledFeatureRow D)) : (order rows).Nodup :=
  (order_perm rows).nodup_iff.mpr List.nodup_range

@[simp] theorem length_order (rows : List (LabeledFeatureRow D)) :
    (order rows).length = rows.length := by
  rw [(order_perm rows).length_eq, List.length_range]

theorem mem_order : i ∈ order rows ↔ i < rows.length := by
  rw [(order_perm rows).mem_iff, List.mem_range]

theorem order_sorted (rows : List (LabeledFeatureRow D)) :
    (order rows).Pairwise fun a b => orderKey rows a < orderKey rows b := by
  have weak : (order rows).Pairwise fun a b => orderKey rows a ≤ orderKey rows b := by
    rw [order_eq]
    exact StableSort.sortBy_sorted _ _
  exact (weak.and (order_nodup rows)).imp fun {a b} both =>
    lt_of_le_of_ne both.1 ((orderKey_injective rows).ne both.2)

/-- Positions in the order compare as the keys do. -/
theorem order_lt_iff {p q : Nat} (left : (order rows)[p]? = some i) (right : (order rows)[q]? = some j) :
    p < q ↔ orderKey rows i < orderKey rows j := by
  obtain ⟨p_in, rfl⟩ := List.getElem?_eq_some_iff.mp left
  obtain ⟨q_in, rfl⟩ := List.getElem?_eq_some_iff.mp right
  have rises := List.pairwise_iff_getElem.mp (order_sorted rows)
  constructor
  · exact rises p q p_in q_in
  · intro less
    rcases Nat.lt_trichotomy p q with before | same | behind
    · exact before
    · subst same
      exact absurd less (lt_irrefl _)
    · exact absurd less (rises q p q_in p_in behind).asymm

theorem time_le_of_le {p q : Nat} (left : (order rows)[p]? = some i) (right : (order rows)[q]? = some j)
    (ahead : p ≤ q) : (timeAt rows i).toNat ≤ (timeAt rows j).toNat := by
  rcases Nat.lt_or_eq_of_le ahead with before | same
  · exact time_le_of_lt ((order_lt_iff left right).mp before)
  · rw [same, right] at left
    rw [Option.some.inj left]

end Order

section Blocks

open ListBlocks (mem_cut flatMap_cuts)

variable {cfg : PurgedCvConfig} {count f : Nat}

/-- The rows of a test block. -/
def block (cfg : PurgedCvConfig) (ord : List Nat) (f : Nat) : List Nat :=
  (ord.take (blockEnd cfg ord.length f)).drop (blockStart cfg ord.length f)

theorem blockEnd_le (cfg : PurgedCvConfig) (count f : Nat) : blockEnd cfg count f ≤ count := by
  rw [blockEnd]
  split
  · exact Nat.le_refl _
  · exact Nat.min_le_left _ _

theorem block_eq_nil (ord : List Nat)
    (skipped : blockStart cfg ord.length f ≥ blockEnd cfg ord.length f) : block cfg ord f = [] := by
  rw [block, List.drop_eq_nil_iff, List.length_take]
  exact (Nat.min_le_left _ _).trans skipped

theorem mem_block {ord : List Nat} {i : Nat} : i ∈ block cfg ord f ↔
    ∃ p, blockStart cfg ord.length f ≤ p ∧ p < blockEnd cfg ord.length f ∧ ord[p]? = some i := mem_cut

/-- The blocks of all folds, one after the other, are the whole order. -/
theorem flatMap_block (folds : 0 < cfg.nFolds) (ord : List Nat) :
    (List.range cfg.nFolds).flatMap (block cfg ord) = ord := by
  obtain ⟨last, many⟩ : ∃ last, cfg.nFolds = last + 1 := Nat.exists_eq_succ_of_ne_zero folds.ne'
  have inner : ∀ f ∈ List.range last, block cfg ord f =
      (ord.take ((f + 1) * foldSize cfg ord.length)).drop (f * foldSize cfg ord.length) := by
    intro f inside
    have before := List.mem_range.mp inside
    rw [block, blockStart, blockEnd, if_neg (by omega), Nat.min_comm, ← List.take_take,
      List.take_length]
  have final : block cfg ord last = ord.drop (last * foldSize cfg ord.length) := by
    rw [block, blockStart, blockEnd, if_pos many.symm, List.take_length]
  rw [many, List.range_succ, List.flatMap_append, List.flatMap_singleton, final,
    List.flatMap_congr inner, flatMap_cuts, List.take_append_drop]

end Blocks

section Folds

open ListBlocks (mem_cut mem_outside)

variable {D : Type*} [Binary64 D] {cfg : PurgedCvConfig} {rows : List (LabeledFeatureRow D)}
  {f : Nat} {fold : CvFold}

/-- The window around the test block that no training row lies in. -/
def InWindow (cfg : PurgedCvConfig) (fold : CvFold) (ts : UInt64) : Prop :=
  purgeStart cfg fold.testStartNs ≤ ts ∧ ts ≤ fold.testEndNs + cfg.embargoNs

/-- What the loop makes of a fold number. -/
structure IsFold (cfg : PurgedCvConfig) (rows : List (LabeledFeatureRow D)) (f : Nat)
    (fold : CvFold) : Prop where
  test : fold.testIndices = block cfg (order rows) f
  first : ∃ i, (order rows)[blockStart cfg rows.length f]? = some i ∧ i ∈ fold.testIndices ∧
    fold.testStartNs = timeAt rows i
  last : ∃ i, (order rows)[blockEnd cfg rows.length f - 1]? = some i ∧ i ∈ fold.testIndices ∧
    fold.testEndNs = timeAt rows i
  train : ∀ i, i ∈ fold.trainIndices ↔
    i < rows.length ∧ i ∉ fold.testIndices ∧ ¬ InWindow cfg fold (timeAt rows i)

theorem foldAt_spec (made : foldAt cfg rows (order rows) f = some fold) : IsFold cfg rows f fold := by
  rw [foldAt] at made
  split at made
  · cases made
  · next room =>
    have inside : blockStart cfg rows.length f < blockEnd cfg rows.length f := by
      simpa using room
    have bound := blockEnd_le cfg rows.length f
    have at_position : ∀ p < rows.length, (order rows)[p]? = some ((order rows).getD p 0) := by
      intro p lower
      have held : p < (order rows).length := by rwa [length_order]
      rw [List.getD_eq_getElem?_getD, List.getElem?_eq_getElem held, Option.getD_some]
    simp only [Option.some.injEq, length_order] at made
    have front := at_position _ (inside.trans_le bound)
    have back := at_position (blockEnd cfg rows.length f - 1) (by omega)
    have test : fold.testIndices = block cfg (order rows) f := by
      rw [← made, block, length_order]
    have train : fold.trainIndices = ((order rows).zipIdx.filter fun entry =>
        !(decide (blockStart cfg rows.length f ≤ entry.2) &&
            decide (entry.2 < blockEnd cfg rows.length f)) &&
          !(decide (timeAt rows entry.1 ≥ purgeStart cfg fold.testStartNs) &&
            decide (timeAt rows entry.1 ≤ fold.testEndNs + cfg.embargoNs))).map Prod.fst := by
      rw [← made]
    refine ⟨test, ⟨_, front, ?_, by rw [← made]⟩, ⟨_, back, ?_, by rw [← made]⟩, fun i => ?_⟩
    · rw [← made]
      exact mem_cut.mpr ⟨_, Nat.le_refl _, inside, front⟩
    · rw [← made]
      exact mem_cut.mpr ⟨_, by omega, by omega, back⟩
    · rw [train, mem_outside (order_nodup rows) _ _ (fun idx =>
        decide (timeAt rows idx ≥ purgeStart cfg fold.testStartNs) &&
          decide (timeAt rows idx ≤ fold.testEndNs + cfg.embargoNs)), mem_order, test, block,
        length_order, InWindow, Bool.and_eq_false_iff, decide_eq_false_iff_not,
        decide_eq_false_iff_not, not_and_or]

/-- The rows of a test block are between its ends in time. -/
theorem IsFold.test_times (made : IsFold cfg rows f fold) {i : Nat} (member : i ∈ fold.testIndices) :
    fold.testStartNs.toNat ≤ (timeAt rows i).toNat ∧
      (timeAt rows i).toNat ≤ fold.testEndNs.toNat := by
  obtain ⟨first, front, -, start⟩ := made.first
  obtain ⟨last, back, -, stop⟩ := made.last
  rw [made.test, mem_block, length_order] at member
  obtain ⟨p, low, high, found⟩ := member
  rw [start, stop]
  exact ⟨time_le_of_le front found low, time_le_of_le found back (by omega)⟩

/-- The purge starts the purge width before the test block, or at zero. -/
theorem purgeStart_toNat (cfg : PurgedCvConfig) (testStartNs : UInt64) :
    (purgeStart cfg testStartNs).toNat = testStartNs.toNat - cfg.purgeNs.toNat := by
  rw [purgeStart]
  split
  · next wide =>
    exact UInt64.toNat_sub_of_le _ _ (UInt64.le_iff_toNat_le.mpr (UInt64.lt_iff_toNat_lt.mp wide).le)
  · next narrow =>
    rw [gt_iff_lt, UInt64.lt_iff_toNat_lt, not_lt] at narrow
    rw [Nat.sub_eq_zero_of_le narrow]
    rfl

theorem mem_timeAt {i : Nat} (inside : i < rows.length) :
    ∃ row ∈ rows, rows[i]? = some row ∧ timeAt rows i = row.exchangeTsNs := by
  refine ⟨rows[i], List.getElem_mem inside, List.getElem?_eq_getElem inside, ?_⟩
  rw [timeAt, List.getElem?_eq_getElem inside]
  rfl

/-- No sum of a row's time and the width reaches the end of the clock. -/
def Fits (rows : List (LabeledFeatureRow D)) (width : UInt64) : Prop :=
  ∀ row ∈ rows, row.exchangeTsNs.toNat + width.toNat < 2 ^ 64

theorem IsFold.embargoEnd (made : IsFold cfg rows f fold) (fits : Fits rows cfg.embargoNs) :
    (fold.testEndNs + cfg.embargoNs).toNat = fold.testEndNs.toNat + cfg.embargoNs.toNat := by
  obtain ⟨last, back, -, stop⟩ := made.last
  obtain ⟨row, member, -, same⟩ := mem_timeAt (mem_order.mp (List.mem_of_getElem? back))
  rw [stop, same, UInt64.toNat_add, Nat.mod_eq_of_lt (fits row member)]

/-- A training row lies before the window, and so do the labels whose horizon is not beyond the
purge, or it lies after the test block. -/
theorem IsFold.train_apart (made : IsFold cfg rows f fold) (fits : Fits rows cfg.embargoNs) {i : Nat}
    (member : i ∈ fold.trainIndices) :
    (timeAt rows i).toNat + cfg.purgeNs.toNat < fold.testStartNs.toNat ∨
      fold.testEndNs.toNat < (timeAt rows i).toNat := by
  obtain ⟨-, -, apart⟩ := (made.train i).mp member
  simp only [InWindow, UInt64.le_iff_toNat_le, purgeStart_toNat, made.embargoEnd fits, not_and_or,
    not_le] at apart
  omega

theorem IsFold.not_leaky (made : IsFold cfg rows f fold) (fits : Fits rows cfg.embargoNs)
    {labelHorizonNs : UInt64} (short : labelHorizonNs ≤ cfg.purgeNs) :
    isLeakySplit fold labelHorizonNs rows = false := by
  rw [isLeakySplit, List.any_eq_false]
  intro i member leaks
  simp only [Bool.and_eq_true, decide_eq_true_eq, ge_iff_le, UInt64.le_iff_toNat_le,
    UInt64.toNat_add] at leaks
  have width := UInt64.le_iff_toNat_le.mp short
  have small := fold.testStartNs.toNat_lt
  rcases made.train_apart fits member with before | after
  · rw [Nat.mod_eq_of_lt (by omega)] at leaks
    omega
  · omega

/-- A row that a fold leaves out lies in the purge, in the test block's time or in the embargo. -/
theorem IsFold.left_out (made : IsFold cfg rows f fold) (fits : Fits rows cfg.embargoNs) {i : Nat}
    (inside : i < rows.length) (untrained : i ∉ fold.trainIndices) (untested : i ∉ fold.testIndices) :
    fold.testStartNs.toNat - cfg.purgeNs.toNat ≤ (timeAt rows i).toNat ∧
      (timeAt rows i).toNat ≤ fold.testEndNs.toNat + cfg.embargoNs.toNat := by
  rw [made.train] at untrained
  have within : InWindow cfg fold (timeAt rows i) :=
    by_contra fun apart => untrained ⟨inside, untested, apart⟩
  simpa only [InWindow, UInt64.le_iff_toNat_le, purgeStart_toNat, made.embargoEnd fits] using within

variable {cv : PurgedCv}

theorem mem_split (member : fold ∈ cv.split rows) :
    ∃ f < cv.cfg.nFolds, foldAt cv.cfg rows (order rows) f = some fold := by
  rw [split] at member
  split at member
  · cases member
  · obtain ⟨f, inside, made⟩ := List.mem_filterMap.mp member
    exact ⟨f, List.mem_range.mp inside, made⟩

/-- The tests of the folds, one after the other, are the rows in the order of time. -/
theorem split_tests (folds : 2 ≤ cv.cfg.nFolds) (rows : List (LabeledFeatureRow D)) :
    (cv.split rows).flatMap CvFold.testIndices = order rows := by
  rw [split]
  split
  · next empty =>
    have none_left : rows = [] := by simpa [Nat.not_lt.mpr folds] using empty
    subst none_left
    exact (List.mergeSort_nil).symm
  · have tests : ∀ f, ((foldAt cv.cfg rows (order rows) f).toList.flatMap CvFold.testIndices) =
        block cv.cfg (order rows) f := by
      intro f
      cases made : foldAt cv.cfg rows (order rows) f with
      | some fold => simp [(foldAt_spec made).test]
      | none =>
        rw [foldAt] at made
        split at made
        · next skipped => exact (block_eq_nil _ skipped).symm
        · cases made
    rw [List.filterMap_eq_flatMap_toList, List.flatMap_assoc]
    simp only [tests]
    exact flatMap_block (by omega) _

/-- The test blocks cover every row once, and every fold keeps its training rows away from its
test block. -/
theorem split_sound (cv : PurgedCv) (rows : List (LabeledFeatureRow D)) (folds : 2 ≤ cv.cfg.nFolds)
    (fits : Fits rows cv.cfg.embargoNs) :
    ((cv.split rows).flatMap CvFold.testIndices).Perm (List.range rows.length) ∧
      (cv.split rows).Pairwise (fun a b => a.testIndices.Disjoint b.testIndices) ∧
      ∀ fold ∈ cv.split rows, fold.testIndices ≠ [] ∧
        fold.trainIndices.Disjoint fold.testIndices ∧
        (∀ i < rows.length, i ∉ fold.trainIndices → i ∉ fold.testIndices →
          fold.testStartNs.toNat - cv.cfg.purgeNs.toNat ≤ (timeAt rows i).toNat ∧
            (timeAt rows i).toNat ≤ fold.testEndNs.toNat + cv.cfg.embargoNs.toNat) ∧
        ∀ labelHorizonNs ≤ cv.cfg.purgeNs, isLeakySplit fold labelHorizonNs rows = false := by
  have tests := split_tests folds rows
  refine ⟨tests ▸ order_perm rows, ?_, ?_⟩
  · have distinct := order_nodup rows
    rw [← tests, List.nodup_flatMap] at distinct
    exact distinct.2
  · intro fold member
    obtain ⟨f, -, found⟩ := mem_split member
    have made := foldAt_spec found
    obtain ⟨first, -, tested, -⟩ := made.first
    refine ⟨List.ne_nil_of_mem tested, ?_, ?_, ?_⟩
    · intro i trained held
      exact ((made.train i).mp trained).2.1 held
    · exact fun i inside => made.left_out fits inside
    · exact fun h short => made.not_leaky fits short

/-- Three rows, two of them at one time. -/
theorem split_sound_tied :
    ((split ⟨{ nFolds := 2 }⟩ [LabelBuilder.midAt 5 100, LabelBuilder.midAt 5 101,
      LabelBuilder.midAt 7 102]).flatMap CvFold.testIndices).Perm (List.range 3) :=
  (split_sound ⟨{ nFolds := 2 }⟩ _ (by decide) (by simp [Fits, LabelBuilder.midAt])).1

end Folds

end PurgedCv

end FeedHandler
