import FeedHandler.Research.PurgedCv

/-! From which rows a label is computed, and when the label of a training row is computed from
a row that its fold tests on. -/
namespace FeedHandler

namespace LabelBuilder

open PurgedCv (timeAt orderKey orderKey_lt_iff orderKey_injective)

variable {rows : List (LabeledFeatureRow ℚ)} {row : LabeledFeatureRow ℚ} {i o g : Nat}

def rowAt (rows : List (LabeledFeatureRow ℚ)) (i : Nat) : LabeledFeatureRow ℚ := rows.getD i {}

def observationAt (rows : List (LabeledFeatureRow ℚ)) (i : Nat) : MidObservation ℚ :=
  (rowAt rows i).observation

theorem timeAt_eq (rows : List (LabeledFeatureRow ℚ)) (i : Nat) :
    timeAt rows i = (rowAt rows i).exchangeTsNs := by
  rw [timeAt, rowAt, List.getD_eq_getElem?_getD]
  cases rows[i]? <;> rfl

theorem rowAt_eq (at_row : rows[i]? = some row) : rowAt rows i = row := by
  rw [rowAt, List.getD_eq_getElem?_getD, at_row, Option.getD_some]

theorem map_rowAt (rows : List (LabeledFeatureRow ℚ)) :
    (List.range rows.length).map (rowAt rows) = rows := by
  refine List.ext_getElem (by simp) fun i _ inside => ?_
  rw [List.getElem_map, List.getElem_range]
  exact rowAt_eq (List.getElem?_eq_getElem inside)

/-- The rows of the timeline, by index. -/
def timelineRows (rows : List (LabeledFeatureRow ℚ)) : List Nat :=
  StableSort.sortBy (timelineKey ∘ observationAt rows)
    ((List.range rows.length).filter fun i => hasMid (rowAt rows i))

theorem map_timelineRows (rows : List (LabeledFeatureRow ℚ)) :
    (timelineRows rows).map (observationAt rows) = buildTimeline rows := by
  have kept : rows.filter hasMid =
      ((List.range rows.length).filter fun i => hasMid (rowAt rows i)).map (rowAt rows) := by
    conv_lhs => rw [← map_rowAt rows]
    exact List.filter_map
  rw [timelineRows, StableSort.map_sortBy, buildTimeline_eq, kept, List.map_map]
  rfl

theorem getElem?_buildTimeline (rows : List (LabeledFeatureRow ℚ)) (p : Nat) :
    (buildTimeline rows)[p]? = (timelineRows rows)[p]?.map (observationAt rows) := by
  rw [← map_timelineRows, List.getElem?_map]

theorem mem_timelineRows : i ∈ timelineRows rows ↔ i < rows.length ∧ 0 < (rowAt rows i).mid := by
  rw [timelineRows, StableSort.mem_sortBy, List.mem_filter, List.mem_range, hasMid,
    decide_eq_true_eq]

/-- Symbol first, then time, then the original order. -/
def rowKey (rows : List (LabeledFeatureRow ℚ)) (i : Nat) : ℕ ×ₗ (ℕ ×ₗ ℕ) :=
  toLex ((rowAt rows i).symbolU64.toNat, orderKey rows i)

theorem rowKey_lt_iff (same : (rowAt rows i).symbolU64 = (rowAt rows g).symbolU64) :
    rowKey rows i < rowKey rows g ↔ orderKey rows i < orderKey rows g := by
  rw [rowKey, rowKey, Prod.Lex.toLex_lt_toLex, same]
  simp

theorem rowKey_le_iff (same : (rowAt rows i).symbolU64 = (rowAt rows g).symbolU64) :
    rowKey rows i ≤ rowKey rows g ↔ orderKey rows i ≤ orderKey rows g := by
  rw [← not_lt, ← not_lt, rowKey_lt_iff same.symm]

theorem timelineRows_sorted (rows : List (LabeledFeatureRow ℚ)) :
    (timelineRows rows).Pairwise fun a b => rowKey rows a < rowKey rows b := by
  have stable := StableSort.sortBy_stable (timelineKey ∘ observationAt rows)
    (List.pairwise_lt_range (n := rows.length) |>.filter fun i => hasMid (rowAt rows i))
  refine stable.imp fun {a b} before => ?_
  rw [rowKey, rowKey, Prod.Lex.toLex_lt_toLex, orderKey_lt_iff, timeAt_eq, timeAt_eq]
  rcases before with less | ⟨tie, original⟩
  · rw [Function.comp_apply, Function.comp_apply, timelineKey, timelineKey,
      Prod.Lex.toLex_lt_toLex] at less
    exact less.imp id fun both => ⟨both.1, .inl both.2⟩
  · obtain ⟨symbol, time⟩ := timelineKey_eq_iff.mp tie
    exact .inr ⟨congrArg UInt64.toNat symbol, .inr ⟨time, original⟩⟩

/-- A row of the symbol of `row` that has a mid. -/
structure Observes (rows : List (LabeledFeatureRow ℚ)) (row : LabeledFeatureRow ℚ) (g : Nat) :
    Prop where
  inside : g < rows.length
  positive : 0 < (rowAt rows g).mid
  symbol : (rowAt rows g).symbolU64 = row.symbolU64

/-- The rows, by index, that a label is computed from: the one whose mid it starts from and the
later one. -/
def labelSources (rows : List (LabeledFeatureRow ℚ)) (horizonNs : UInt64)
    (row : LabeledFeatureRow ℚ) : Option (Nat × Nat) :=
  if noMid row.mid then none
  else
    let timeline := buildTimeline rows
    let origin := originIndex timeline row
    let future := findFutureMidIndex timeline origin (row.exchangeTsNs + horizonNs)
    match (timelineRows rows)[origin]?, (timelineRows rows)[future]? with
    | some first, some later => some (first, later)
    | _, _ => none

/-- The first row of the symbol and time of `row` that has a mid. -/
structure IsOrigin (rows : List (LabeledFeatureRow ℚ)) (row : LabeledFeatureRow ℚ) (o : Nat) :
    Prop extends Observes rows row o where
  time : timeAt rows o = row.exchangeTsNs
  least : ∀ g, Observes rows row g → timeAt rows g = row.exchangeTsNs →
    orderKey rows o ≤ orderKey rows g

theorem IsOrigin.unique (one : IsOrigin rows row o) (other : IsOrigin rows row g) : o = g :=
  orderKey_injective rows (le_antisymm (one.least g other.toObserves other.time)
    (other.least o one.toObserves one.time))

theorem origin_row (member : row ∈ rows) (positive : 0 < row.mid) :
    ∃ o, (timelineRows rows)[originIndex (buildTimeline rows) row]? = some o ∧
      IsOrigin rows row o := by
  obtain ⟨first, front, back, found, whole, index, here, low⟩ := origin_found member positive
  obtain ⟨-, symbol, time⟩ := firstObserved_spec found
  rw [getElem?_buildTimeline] at here
  obtain ⟨o, at_origin, same⟩ := Option.map_eq_some_iff.mp here
  obtain ⟨inside, has_mid⟩ := mem_timelineRows.mp (List.mem_of_getElem? at_origin)
  have own_symbol : (rowAt rows o).symbolU64 = row.symbolU64 :=
    (congrArg MidObservation.symbolU64 same).trans symbol
  have own_time : timeAt rows o = row.exchangeTsNs := by
    rw [timeAt_eq]
    exact (congrArg MidObservation.exchangeTsNs same).trans time
  refine ⟨o, at_origin, ⟨inside, has_mid, own_symbol⟩, own_time, fun g observed tie => ?_⟩
  rw [← rowKey_le_iff (own_symbol.trans observed.symbol.symm)]
  obtain ⟨p, at_p⟩ := List.mem_iff_getElem?.mp
    (mem_timelineRows.mpr ⟨observed.inside, observed.positive⟩)
  -- in front of the origin there are only lesser keys
  have behind : front.length ≤ p := by
    by_contra ahead
    rw [not_le] at ahead
    have in_front : observationAt rows g ∈ front := by
      have image : (buildTimeline rows)[p]? = some (observationAt rows g) := by
        rw [getElem?_buildTimeline, at_p]
        rfl
      rw [whole, List.getElem?_append_left ahead] at image
      exact List.mem_of_getElem? image
    refine absurd (low _ in_front) (not_lt.mpr (timelineKey_eq_iff.mpr ⟨?_, ?_⟩).ge)
    · exact observed.symbol
    · rw [timeAt_eq] at tie
      exact tie
  rw [index] at at_origin
  rcases Nat.lt_or_eq_of_le behind with later | equal
  · obtain ⟨o_in, rfl⟩ := List.getElem?_eq_some_iff.mp at_origin
    obtain ⟨p_in, rfl⟩ := List.getElem?_eq_some_iff.mp at_p
    exact (List.pairwise_iff_getElem.mp (timelineRows_sorted rows) _ _ o_in p_in later).le
  · rw [equal, at_p] at at_origin
    rw [Option.some.inj at_origin]

/-- The search for the future mid goes through the rows that come after the origin. -/
theorem future_row {k : Nat} (here : (timelineRows rows)[k]? = some o) (targetTsNs : UInt64) :
    (timelineRows rows)[findFutureMidIndex (buildTimeline rows) k targetTsNs]? =
      (timelineRows rows).find? fun g => decide (rowKey rows o < rowKey rows g) &&
        ripe (rowAt rows o).symbolU64 targetTsNs (observationAt rows g) := by
  have there : (buildTimeline rows)[k]? = some (observationAt rows o) := by
    rw [getElem?_buildTimeline, here]
    rfl
  simp only [findFutureMidIndex, there, futureFrom_eq]
  rw [← map_timelineRows, ← List.map_drop, List.findIdx_map, ← List.getElem?_drop,
    ← List.find?_eq_getElem?_findIdx, StableSort.drop_eq_filter (timelineRows_sorted rows) here,
    List.find?_filter]
  congr 1
  funext g
  simp
  rfl

/-- A row whose mid can serve as the future mid. -/
structure Follows (rows : List (LabeledFeatureRow ℚ)) (row : LabeledFeatureRow ℚ)
    (targetTsNs : UInt64) (o g : Nat) : Prop extends Observes rows row g where
  behind : orderKey rows o < orderKey rows g
  past : targetTsNs ≤ timeAt rows g

theorem serves_iff (own : (rowAt rows o).symbolU64 = row.symbolU64) {targetTsNs : UInt64} :
    (g ∈ timelineRows rows ∧ (decide (rowKey rows o < rowKey rows g) &&
      ripe (rowAt rows o).symbolU64 targetTsNs (observationAt rows g)) = true) ↔
        Follows rows row targetTsNs o g := by
  simp only [Bool.and_eq_true, ripe, decide_eq_true_eq, ge_iff_le, mem_timelineRows, own]
  constructor
  · rintro ⟨⟨inside, positive⟩, after, symbol, past⟩
    have same : (rowAt rows g).symbolU64 = row.symbolU64 := symbol
    refine ⟨⟨inside, positive, same⟩, (rowKey_lt_iff (own.trans same.symm)).mp after, ?_⟩
    rw [timeAt_eq]
    exact past
  · rintro ⟨⟨inside, positive, symbol⟩, behind, past⟩
    rw [timeAt_eq] at past
    exact ⟨⟨inside, positive⟩, (rowKey_lt_iff (own.trans symbol.symm)).mpr behind, symbol, past⟩

/-- The search takes the first row that can serve. -/
theorem future_row_eq_some {k f : Nat} (here : (timelineRows rows)[k]? = some o)
    (own : (rowAt rows o).symbolU64 = row.symbolU64) (targetTsNs : UInt64) :
    (timelineRows rows)[findFutureMidIndex (buildTimeline rows) k targetTsNs]? = some f ↔
      Follows rows row targetTsNs o f ∧
        ∀ g, Follows rows row targetTsNs o g → orderKey rows f ≤ orderKey rows g := by
  rw [future_row here, StableSort.find?_eq_some_iff (timelineRows_sorted rows), ← and_assoc,
    serves_iff own]
  refine and_congr_right fun found => forall_congr' fun g => ?_
  rw [← and_imp, serves_iff own]
  exact imp_congr_right fun other =>
    rowKey_le_iff (found.symbol.trans other.symbol.symm)

theorem future_row_eq_none {k : Nat} (here : (timelineRows rows)[k]? = some o)
    (own : (rowAt rows o).symbolU64 = row.symbolU64) (targetTsNs : UInt64) :
    (timelineRows rows)[findFutureMidIndex (buildTimeline rows) k targetTsNs]? = none ↔
      ∀ g, ¬ Follows rows row targetTsNs o g := by
  rw [future_row here, List.find?_eq_none]
  refine forall_congr' fun g => ?_
  rw [← serves_iff own, not_and]

/-- What a label is computed from: the first row of the symbol and time of the row, and the
first one after it that is past the horizon. -/
theorem labelSources_eq_some {f : Nat} (member : row ∈ rows) (positive : 0 < row.mid)
    (horizonNs : UInt64) :
    labelSources rows horizonNs row = some (o, f) ↔
      IsOrigin rows row o ∧ Follows rows row (row.exchangeTsNs + horizonNs) o f ∧
        ∀ g, Follows rows row (row.exchangeTsNs + horizonNs) o g →
          orderKey rows f ≤ orderKey rows g := by
  obtain ⟨origin, here, is_origin⟩ := origin_row member positive
  have unique : IsOrigin rows row o ↔ origin = o :=
    ⟨is_origin.unique, fun same => same ▸ is_origin⟩
  rw [unique]
  have future := fun f => future_row_eq_some (f := f) here is_origin.symbol
    (row.exchangeTsNs + horizonNs)
  simp only [labelSources, noMid_of_pos positive, Bool.false_eq_true, if_false, here]
  cases found : (timelineRows rows)[findFutureMidIndex (buildTimeline rows)
      (originIndex (buildTimeline rows) row) (row.exchangeTsNs + horizonNs)]? with
  | none =>
    simp only [reduceCtorEq, false_iff, not_and]
    rintro rfl serves least
    have some_row := (future f).mpr ⟨serves, least⟩
    rw [found] at some_row
    cases some_row
  | some later =>
    simp only [Option.some.injEq, Prod.mk.injEq]
    refine and_congr_right fun same => ?_
    subst same
    rw [← future f, found, Option.some.injEq]

/-- A row that can serve makes for a label. -/
theorem exists_labelSources (member : row ∈ rows) (positive : 0 < row.mid) (horizonNs : UInt64)
    (served : ∀ o, timeAt rows o = row.exchangeTsNs →
      Follows rows row (row.exchangeTsNs + horizonNs) o g) :
    ∃ source, labelSources rows horizonNs row = some source := by
  obtain ⟨origin, here, is_origin⟩ := origin_row member positive
  simp only [labelSources, noMid_of_pos positive, Bool.false_eq_true, if_false, here]
  cases found : (timelineRows rows)[findFutureMidIndex (buildTimeline rows)
      (originIndex (buildTimeline rows) row) (row.exchangeTsNs + horizonNs)]? with
  | none =>
    exact absurd (served origin is_origin.time)
      ((future_row_eq_none here is_origin.symbol _).mp found g)
  | some later => exact ⟨_, rfl⟩

theorem labelSources_positive {horizonNs : UInt64} {source : Nat × Nat}
    (found : labelSources rows horizonNs row = some source) : 0 < row.mid := by
  by_contra missing
  rw [labelSources, if_pos (noMid_of_not_pos missing)] at found
  cases found

/-- The return between the two rows that a label is computed from. -/
def sourceReturn (rows : List (LabeledFeatureRow ℚ)) (source : Nat × Nat) : ℚ :=
  ((rowAt rows source.2).mid - (rowAt rows source.1).mid) / (rowAt rows source.1).mid

/-- The label is computed from these two rows, and is missing without them. -/
theorem labelAt_sources (cfg : Config) {k : Nat} {horizonNs : UInt64} (at_row : rows[i]? = some row)
    (at_horizon : cfg.horizons.horizonsNs[k]? = some horizonNs) :
    labelAt cfg rows i k =
      some ((labelSources rows horizonNs row).map (sourceReturn rows)) := by
  by_cases positive : 0 < row.mid
  · obtain ⟨origin, here, observed, time, -⟩ := origin_row (List.mem_of_getElem? at_row) positive
    rw [timeAt_eq] at time
    rw [labelAt_positive at_row at_horizon positive]
    simp only [forwardMidReturn, labelSources, noMid_of_pos positive, Bool.false_eq_true, if_false,
      getElem?_buildTimeline, here, Option.map_some, observationAt, LabeledFeatureRow.observation,
      noMid_of_pos observed.positive, time]
    cases found : (timelineRows rows)[findFutureMidIndex (buildTimeline rows)
        (originIndex (buildTimeline rows) row) (row.exchangeTsNs + horizonNs)]? with
    | none => rfl
    | some later =>
      have priced : 0 < (observationAt rows later).mid :=
        (mem_timelineRows.mp (List.mem_of_getElem? found)).2
      simp only [Option.map_some, noMid_of_pos priced, Bool.false_eq_true, if_false]
      rfl
  · rw [labelAt_missing at_row at_horizon positive, labelSources,
      if_pos (noMid_of_not_pos positive)]
    rfl

end LabelBuilder

namespace PurgedCv

open LabelBuilder

variable {cfg : PurgedCvConfig} {rows : List (LabeledFeatureRow ℚ)} {f : Nat} {fold : CvFold}
  {horizonNs : UInt64}

/-- No label of a training row is computed from a row of its fold's test block. -/
def TestUnused (rows : List (LabeledFeatureRow ℚ)) (horizonNs : UInt64) (fold : CvFold) : Prop :=
  ∀ i ∈ fold.trainIndices, ∀ source ∈ labelSources rows horizonNs (rowAt rows i),
    source.1 ∉ fold.testIndices ∧ source.2 ∉ fold.testIndices

/-- Where a test block has a mid of the symbol of a row that is before its purge, there is one
before the block that the label of the row can use. -/
def ObservedBefore (cfg : PurgedCvConfig) (rows : List (LabeledFeatureRow ℚ)) (horizonNs : UInt64)
    (f : Nat) : Prop :=
  ∀ i < rows.length, 0 < (rowAt rows i).mid →
    (∀ j ∈ block cfg (order rows) f,
      (timeAt rows i).toNat + cfg.purgeNs.toNat < (timeAt rows j).toNat) →
    (∃ j ∈ block cfg (order rows) f, Observes rows (rowAt rows i) j) →
    ∃ o g, Observes rows (rowAt rows i) o ∧ timeAt rows o = timeAt rows i ∧
      Observes rows (rowAt rows i) g ∧ orderKey rows o < orderKey rows g ∧
      (timeAt rows i).toNat + horizonNs.toNat ≤ (timeAt rows g).toNat ∧
      ∀ j ∈ block cfg (order rows) f, orderKey rows g < orderKey rows j

theorem mem_rowAt {i : Nat} (inside : i < rows.length) : rowAt rows i ∈ rows := by
  rw [rowAt_eq (List.getElem?_eq_getElem inside)]
  exact List.getElem_mem inside

/-- A row that is before one test row and is not tested is before all test rows. -/
theorem before_block {g j : Nat} (inside : g < rows.length) (untested : g ∉ block cfg (order rows) f)
    (tested : j ∈ block cfg (order rows) f) (ahead : orderKey rows g < orderKey rows j) :
    ∀ k ∈ block cfg (order rows) f, orderKey rows g < orderKey rows k := by
  intro k other
  obtain ⟨p, at_p⟩ := List.mem_iff_getElem?.mp (mem_order.mpr inside)
  obtain ⟨q, -, stop, at_q⟩ := mem_block.mp tested
  obtain ⟨r, start, -, at_r⟩ := mem_block.mp other
  have earlier := (order_lt_iff at_p at_q).mpr ahead
  refine (order_lt_iff at_p at_r).mp ?_
  by_contra late
  exact untested (mem_block.mpr ⟨p, by omega, by omega, at_p⟩)

/-- A label that ends by the purge before a test row does not wrap, and a later row of the symbol
can serve it. -/
theorem follows_of_past {i j o : Nat} (same : timeAt rows o = timeAt rows i)
    (observed : Observes rows (rowAt rows i) j) (after : (timeAt rows i).toNat < (timeAt rows j).toNat)
    (past : (timeAt rows i).toNat + horizonNs.toNat ≤ (timeAt rows j).toNat) :
    Follows rows (rowAt rows i) ((rowAt rows i).exchangeTsNs + horizonNs) o j := by
  have clock := (timeAt rows j).toNat_lt
  refine ⟨observed, orderKey_lt_iff.mpr (.inl (same ▸ after)), UInt64.le_iff_toNat_le.mpr ?_⟩
  rw [← timeAt_eq, toNat_target (past.trans_lt clock)]
  exact past

/-- If the tests are left alone, the label of a row before the purge uses a row before the
block. -/
theorem IsFold.observedBefore (made : IsFold cfg rows f fold) (short : horizonNs ≤ cfg.purgeNs)
    (unused : TestUnused rows horizonNs fold) : ObservedBefore cfg rows horizonNs f := by
  have width := UInt64.le_iff_toNat_le.mp short
  rintro i inside positive before ⟨j, tested, observed⟩
  have later := before j tested
  have clock := (timeAt rows j).toNat_lt
  have time : (rowAt rows i).exchangeTsNs = timeAt rows i := (timeAt_eq rows i).symm
  have trained : i ∈ fold.trainIndices := by
    refine (made.train i).mpr ⟨inside, fun held => ?_, fun within => ?_⟩
    · rw [made.test] at held
      exact absurd (before i held) (by omega)
    · obtain ⟨first, -, front, start⟩ := made.first
      rw [made.test] at front
      have ahead := before first front
      have low := UInt64.le_iff_toNat_le.mp within.1
      rw [purgeStart_toNat, start] at low
      omega
  obtain ⟨⟨o, g⟩, found⟩ := exists_labelSources (mem_rowAt inside) positive horizonNs
    (g := j) fun o same => follows_of_past (same.trans time) observed (by omega) (by omega)
  have untested : g ∉ block cfg (order rows) f := by
    rw [← made.test]
    exact (unused i trained _ found).2
  obtain ⟨origin, follows, least⟩ :=
    (labelSources_eq_some (mem_rowAt inside) positive horizonNs).mp found
  have past := UInt64.le_iff_toNat_le.mp follows.past
  rw [time, toNat_target (by omega)] at past
  have same : timeAt rows o = timeAt rows i := origin.time.trans time
  refine ⟨o, g, origin.toObserves, same, follows.toObserves, follows.behind, past, ?_⟩
  have up_to : orderKey rows g ≤ orderKey rows j :=
    least j (follows_of_past same observed (by omega) (by omega))
  refine before_block follows.inside untested tested (lt_of_le_of_ne up_to fun equal => ?_)
  rw [orderKey_injective rows equal] at untested
  exact untested tested

/-- If every row before the purge has an observation to use, no label reaches into the test. -/
theorem IsFold.testUnused (made : IsFold cfg rows f fold) (fits : Fits rows cfg.embargoNs)
    (short : horizonNs ≤ cfg.purgeNs) (observed : ObservedBefore cfg rows horizonNs f) :
    TestUnused rows horizonNs fold := by
  have width := UInt64.le_iff_toNat_le.mp short
  rintro i trained ⟨o, g⟩ found
  have inside := ((made.train i).mp trained).1
  have positive := labelSources_positive found
  obtain ⟨⟨-, same, first⟩, follows, least⟩ :=
    (labelSources_eq_some (mem_rowAt inside) positive horizonNs).mp found
  have time : (rowAt rows i).exchangeTsNs = timeAt rows i := (timeAt_eq rows i).symm
  rw [time] at same
  have apart := made.train_apart fits trained
  constructor
  · intro held
    have times := made.test_times held
    rw [same] at times
    omega
  · intro held
    have times := made.test_times (i := g) held
    have rises := time_le_of_lt follows.behind
    rw [same] at rises
    rcases apart with before | after
    · have in_block : g ∈ block cfg (order rows) f := made.test ▸ held
      obtain ⟨o', g', own, tie, other, behind, past, ahead⟩ := observed i inside positive
        (fun j tested => by
          have later := (made.test_times (made.test ▸ tested)).1
          omega) ⟨g, in_block, follows.toObserves⟩
      have clock := (timeAt rows g').toNat_lt
      have target : ((rowAt rows i).exchangeTsNs + horizonNs).toNat =
          (timeAt rows i).toNat + horizonNs.toNat := by
        rw [time, toNat_target (past.trans_lt clock)]
      have serves : Follows rows (rowAt rows i) ((rowAt rows i).exchangeTsNs + horizonNs) o g' :=
        ⟨other, (first o' own (tie.trans time.symm)).trans_lt behind,
          UInt64.le_iff_toNat_le.mpr (target ▸ past)⟩
      exact absurd (ahead g in_block) (not_lt.mpr (least g' serves))
    · omega

/-- The label of a row is the return between its two source rows. No label of a training row is
computed from a test row just when every test block whose symbols are observed is preceded by an
observation that the labels before the purge can use. -/
theorem split_testUnused_iff (cv : PurgedCv) (rows : List (LabeledFeatureRow ℚ)) {horizonNs : UInt64}
    (short : horizonNs ≤ cv.cfg.purgeNs) (fits : Fits rows cv.cfg.embargoNs) :
    (∀ (labels : LabelBuilder.Config) (i k : Nat), i < rows.length →
        labels.horizons.horizonsNs[k]? = some horizonNs →
        labelAt labels rows i k =
          some ((labelSources rows horizonNs (rowAt rows i)).map (sourceReturn rows))) ∧
      ((∀ fold ∈ cv.split rows, TestUnused rows horizonNs fold) ↔
        ∀ f < cv.cfg.nFolds, ObservedBefore cv.cfg rows horizonNs f) := by
  refine ⟨fun labels i k inside at_horizon => ?_, ?_⟩
  · rw [rowAt_eq (List.getElem?_eq_getElem inside)]
    exact labelAt_sources labels (List.getElem?_eq_getElem inside) at_horizon
  constructor
  · intro unused f bound
    by_cases single : cv.cfg.nFolds < 2
    · -- the only block is everything
      rintro i inside - before -
      have all : block cv.cfg (order rows) f = order rows := by
        have last : f + 1 = cv.cfg.nFolds := by omega
        have none_before : f = 0 := by omega
        rw [block, blockEnd, if_pos last, List.take_length, blockStart, none_before, Nat.zero_mul,
          List.drop_zero]
      rw [all] at before
      exact absurd (before i (mem_order.mpr inside)) (by omega)
    · cases made : foldAt cv.cfg rows (order rows) f with
      | some fold =>
        have spec := foldAt_spec made
        obtain ⟨first, front, -, -⟩ := spec.first
        have filled : rows.isEmpty = false := by
          rw [List.isEmpty_eq_false_iff_exists_mem]
          exact ⟨_, mem_rowAt (mem_order.mp (List.mem_of_getElem? front))⟩
        refine spec.observedBefore short (unused fold ?_)
        rw [split, if_neg (by simp [filled, single])]
        exact List.mem_filterMap.mpr ⟨f, List.mem_range.mpr bound, made⟩
      | none =>
        rw [foldAt] at made
        split at made
        · next skipped =>
          rintro i - - - ⟨j, tested, -⟩
          rw [block_eq_nil _ skipped] at tested
          cases tested
        · cases made
  · intro observed fold member
    obtain ⟨f, bound, found⟩ := mem_split member
    exact (foldAt_spec found).testUnused fits short (observed f bound)

def sparseRows : List (LabeledFeatureRow ℚ) := [midAt 0 100, midAt 100 101]

/-- Two rows far apart: with a purge as wide as the horizon the fold that tests on the second row
trains on the first, whose label is computed from the mid of the second. -/
theorem sparse_label_uses_test :
    (¬ ∀ fold ∈ split ⟨{ nFolds := 2, purgeNs := 1, embargoNs := 0 }⟩ sparseRows,
        TestUnused sparseRows 1 fold) ∧
      labelAt ⟨⟨[1]⟩⟩ sparseRows 0 0 = some (some (1 / 100)) := by
  have ordered : order sparseRows = [0, 1] := List.mergeSort_of_pairwise (by decide +kernel)
  have timeline : buildTimeline sparseRows = [⟨1, 0, 100⟩, ⟨1, 100, 101⟩] :=
    List.mergeSort_of_pairwise (by decide +kernel)
  have indices : timelineRows sparseRows = [0, 1] := List.mergeSort_of_pairwise (by decide +kernel)
  have folds : split ⟨{ nFolds := 2, purgeNs := 1, embargoNs := 0 }⟩ sparseRows =
      [⟨0, 0, 0, [1], [0]⟩, ⟨1, 100, 100, [0], [1]⟩] := by
    rw [split, ordered]
    decide +kernel
  have used : labelSources sparseRows 1 (rowAt sparseRows 0) = some (0, 1) := by
    rw [labelSources, timeline, indices]
    decide +kernel
  constructor
  · intro unused
    have untested := (unused ⟨1, 100, 100, [0], [1]⟩ (by simp [folds]) 0 (by decide) (0, 1) used).2
    exact untested (by decide)
  · rw [labelAt, attachLabels, timeline]
    decide +kernel

def denseRows : List (LabeledFeatureRow ℚ) := [midAt 0 100, midAt 95 101, midAt 100 102, midAt 101 103]

/-- The row at 95 is within the purge, and the label of the first row is computed from it. -/
theorem split_testUnused_dense :
    (split ⟨{ nFolds := 2, purgeNs := 10, embargoNs := 0 }⟩ denseRows).length = 2 ∧
      labelAt ⟨⟨[1]⟩⟩ denseRows 0 0 =
        some ((labelSources denseRows 1 (rowAt denseRows 0)).map (sourceReturn denseRows)) ∧
      ∀ fold ∈ split ⟨{ nFolds := 2, purgeNs := 10, embargoNs := 0 }⟩ denseRows,
        TestUnused denseRows 1 fold := by
  have ordered : order denseRows = [0, 1, 2, 3] := List.mergeSort_of_pairwise (by decide +kernel)
  have symbols : ∀ i < denseRows.length, Observes denseRows (rowAt denseRows 0) i := by
    intro i inside
    refine ⟨inside, ?_, ?_⟩ <;> revert i <;> decide +kernel
  have short : (1 : UInt64) ≤ 10 := by decide
  obtain ⟨computed, unused⟩ :=
    split_testUnused_iff ⟨{ nFolds := 2, purgeNs := 10, embargoNs := 0 }⟩ denseRows short
      (by simp [Fits, denseRows, midAt])
  refine ⟨by rw [split, ordered]; decide +kernel, computed ⟨⟨[1]⟩⟩ 0 0 (by decide) rfl,
    unused.mpr ?_⟩
  intro f bound i inside positive before tested
  rw [ordered] at before ⊢
  have first : f = 1 ∧ i = 0 := by
    clear positive tested
    revert i f
    decide +kernel
  obtain ⟨rfl, rfl⟩ := first
  refine ⟨0, 1, symbols 0 inside, rfl, symbols 1 (by decide), ?_, by decide, ?_⟩
  · exact orderKey_lt_iff.mpr (.inl (by decide))
  · intro j member
    refine orderKey_lt_iff.mpr (.inl ?_)
    revert j
    decide +kernel

end PurgedCv

end FeedHandler
