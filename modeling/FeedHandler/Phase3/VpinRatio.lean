import FeedHandler.Phase3.VpinBuckets
import Mathlib.Algebra.Order.Field.Basic
import Mathlib.Tactic.Positivity

/-! The toxicities that VPIN averages. The source charges the whole imbalance to a bucket that
closes, also the part that goes on to the next bucket, so a toxicity is a ratio only as long
as the trades are small. -/
namespace FeedHandler
namespace FeaturePipeline

variable {D : Type*} [Binary64 D] {cfg : FeatureConfig} {s : FeatureState D}

open Binary64 (ofNat fabs)

/-- The imbalance that is charged to the bucket that closes. -/
def bucketTox (cfg : FeatureConfig) (s : FeatureState D) : D :=
  fabs (ofNat s.vpinBucketBuy.toNat - ofNat s.vpinBucketSell.toNat) / ofNat cfg.vpinBucketVolume.toNat

/-- The loop from `s` closes a bucket with this toxicity. -/
inductive Charges (cfg : FeatureConfig) : FeatureState D → D → Prop where
  | now {s : FeatureState D} (full : s.vpinBucketBuy + s.vpinBucketSell ≥ cfg.vpinBucketVolume) :
    Charges cfg s (bucketTox cfg s)
  | later {s : FeatureState D} {tox : D}
    (full : s.vpinBucketBuy + s.vpinBucketSell ≥ cfg.vpinBucketVolume)
    (rest : Charges cfg (closeBucket cfg s) tox) : Charges cfg s tox

theorem charges_of_full (full : s.vpinBucketBuy + s.vpinBucketSell ≥ cfg.vpinBucketVolume)
    {P : D → Prop} :
    (∀ tox, Charges cfg s tox → P tox) ↔
      P (bucketTox cfg s) ∧ ∀ tox, Charges cfg (closeBucket cfg s) tox → P tox := by
  constructor
  · intro all
    exact ⟨all _ (.now full), fun tox charged => all tox (.later full charged)⟩
  · rintro ⟨first, rest⟩ tox charged
    cases charged with
    | now _ => exact first
    | later _ charged => exact rest tox charged

theorem not_charges_of_open (below : ¬ s.vpinBucketBuy + s.vpinBucketSell ≥ cfg.vpinBucketVolume)
    (tox : D) : ¬ Charges cfg s tox := by
  intro charged
  cases charged with
  | now full => exact below full
  | later full _ => exact below full

section Exact

variable {s : FeatureState ℚ}

def IsRatio (x : ℚ) : Prop := 0 ≤ x ∧ x ≤ 1

/-- Neither side is ahead of the other by more than a bucket volume. -/
theorem bucketTox_isRatio :
    IsRatio (bucketTox cfg s) ↔
      s.vpinBucketBuy.toNat ≤ s.vpinBucketSell.toNat + cfg.vpinBucketVolume.toNat ∧
        s.vpinBucketSell.toNat ≤ s.vpinBucketBuy.toNat + cfg.vpinBucketVolume.toNat := by
  have positive : (0 : ℚ) < cfg.vpinBucketVolume.toNat := Nat.cast_pos.mpr (volume_toNat_pos cfg)
  have tox : bucketTox cfg s =
      |(s.vpinBucketBuy.toNat : ℚ) - s.vpinBucketSell.toNat| / cfg.vpinBucketVolume.toNat := rfl
  rw [IsRatio, tox, div_le_one positive, abs_sub_le_iff, and_iff_right (by positivity),
    sub_le_iff_le_add', sub_le_iff_le_add']
  norm_cast

/-- What is left over when a bucket closes is all on one side. -/
theorem charges_one_sided (fits : bucketed s < 2 ^ 32)
    (side : s.vpinBucketBuy.toNat = 0 ∨ s.vpinBucketSell.toNat = 0) :
    (∀ tox, Charges cfg s tox → IsRatio tox) ↔ bucketed s ≤ cfg.vpinBucketVolume.toNat := by
  have positive := volume_toNat_pos cfg
  by_cases full : cfg.vpinBucketVolume.toNat ≤ bucketed s
  · rw [charges_of_full ((full_iff fits).mpr full), bucketTox_isRatio]
    have closed := bucketed_closeBucket fits full
    constructor
    · rintro ⟨⟨buy, sell⟩, -⟩
      unfold bucketed
      omega
    · intro one
      refine ⟨by unfold bucketed at one; omega, fun tox charged => ?_⟩
      refine absurd charged (not_charges_of_open (mt (full_iff (by omega)).mp ?_) tox)
      omega
  · have below := not_charges_of_open (mt (full_iff fits).mp full)
    exact ⟨fun _ => by omega, fun _ tox charged => absurd charged (below tox)⟩

/-- The loop charges ratios only, if it closes no bucket, or if neither side is ahead by more
than a bucket volume and the volume fits in two buckets. -/
def SplitsFairly (volume buy sell : Nat) : Prop :=
  buy + sell < volume ∨ (buy ≤ sell + volume ∧ sell ≤ buy + volume ∧ buy + sell ≤ 2 * volume)

theorem charges_iff (fits : bucketed s < 2 ^ 32) :
    (∀ tox, Charges cfg s tox → IsRatio tox) ↔
      SplitsFairly cfg.vpinBucketVolume.toNat s.vpinBucketBuy.toNat s.vpinBucketSell.toNat := by
  by_cases full : cfg.vpinBucketVolume.toNat ≤ bucketed s
  · have closed := bucketed_closeBucket fits full
    have side : (closeBucket cfg s).vpinBucketBuy.toNat = 0 ∨
        (closeBucket cfg s).vpinBucketSell.toNat = 0 := by
      rw [(closeBucket_sides fits full).1, (closeBucket_sides fits full).2]
      split
      · exact .inr rfl
      · exact .inl rfl
    rw [charges_of_full ((full_iff fits).mpr full), bucketTox_isRatio,
      charges_one_sided (by omega) side, closed, SplitsFairly]
    unfold bucketed at *
    omega
  · have below := not_charges_of_open (mt (full_iff fits).mp full)
    unfold bucketed at full
    exact ⟨fun _ => .inl (by omega), fun _ tox charged => absurd charged (below tox)⟩

/-- Every slot of the bucket array holds a ratio. -/
def SlotsRatio (s : FeatureState ℚ) : Prop := ∀ x ∈ s.vpinBuckets.toList, IsRatio x

theorem zero_isRatio : IsRatio 0 := ⟨le_rfl, zero_le_one⟩

theorem setBucket_ratio (slots : SlotsRatio s) (slot : Nat) {tox : ℚ} (ratio : IsRatio tox) :
    SlotsRatio (setBucket s slot tox) := by
  intro x held
  simp only [setBucket, Vector.toList_setIfInBounds] at held
  rcases List.mem_or_eq_of_mem_set held with old | rfl
  · exact slots x old
  · exact ratio

theorem closeBucket_ratio (slots : SlotsRatio s) (ratio : IsRatio (bucketTox cfg s)) :
    SlotsRatio (closeBucket cfg s) := by
  unfold closeBucket
  split
  · exact setBucket_ratio slots _ ratio
  · split
    · exact setBucket_ratio slots _ ratio
    · exact slots

theorem closeBuckets_ratio (slots : SlotsRatio s) (ratios : ∀ tox, Charges cfg s tox → IsRatio tox)
    (fuel : Nat) : SlotsRatio (closeBuckets cfg fuel s) := by
  induction fuel generalizing s with
  | zero => exact slots
  | succ fuel ih =>
    rw [closeBuckets]
    split
    · next full =>
      obtain ⟨first, rest⟩ := (charges_of_full full).mp ratios
      exact ih (closeBucket_ratio slots first) rest
    · exact slots

theorem bucketAt_ratio (slots : SlotsRatio s) (slot : Nat) : IsRatio (bucketAt s slot) := by
  rw [bucketAt, List.getD_eq_getElem?_getD]
  cases found : s.vpinBuckets.toList[slot]? with
  | none => exact zero_isRatio
  | some x => exact slots x (List.mem_of_getElem? found)

/-- The average of the stored buckets. -/
theorem vpinOf_ratio (slots : SlotsRatio s) (cfg : FeatureConfig) : IsRatio (vpinOf cfg s) := by
  have sums : ∀ n : Nat, 0 ≤ (List.range n).foldl
        (fun sum i => sum + bucketAt s ((s.vpinHead + i) % maxBuckets cfg)) 0 ∧
      (List.range n).foldl
        (fun sum i => sum + bucketAt s ((s.vpinHead + i) % maxBuckets cfg)) 0 ≤ (n : ℚ) := by
    intro n
    induction n with
    | zero => simp
    | succ n ih =>
      obtain ⟨low, high⟩ := bucketAt_ratio slots ((s.vpinHead + n) % maxBuckets cfg)
      rw [List.range_succ, List.foldl_append, List.foldl_cons, List.foldl_nil, Nat.cast_succ]
      exact ⟨add_nonneg ih.1 low, add_le_add ih.2 high⟩
  unfold vpinOf
  split
  · next some_bucket =>
    have positive : (0 : ℚ) < s.vpinSize := Nat.cast_pos.mpr some_bucket
    exact ⟨div_nonneg (sums s.vpinSize).1 positive.le, (div_le_one positive).mpr (sums s.vpinSize).2⟩
  · exact zero_isRatio

def isTrade (ev : BookEvent) : Prop := ev.type = .trade ∨ ev.type = .crossTrade

theorem updateState_ratio (slots : SlotsRatio s) (ev : BookEvent) (nbbo : Nbbo)
    (ratios : isTrade ev → ∀ tox, Charges cfg (loopEntry cfg s ev nbbo) tox → IsRatio tox) :
    SlotsRatio (updateState cfg s ev nbbo) := by
  unfold updateState
  split
  · next trade => exact closeBuckets_ratio (s := loopEntry cfg s ev nbbo) slots (ratios trade) _
  · exact slots

variable {p : FeaturePipeline ℚ} {input : FeatureInput ℚ}

/-- The input is a trade that the pipeline takes up. -/
def Trades (input : FeatureInput ℚ) : Prop := quoted input.nbbo = true ∧ isTrade input.ev

/-- The volume in the open bucket and that of the trade fit in 32 bits. -/
def SumsFit (p : FeaturePipeline ℚ) (input : FeatureInput ℚ) : Prop :=
  Trades input → bucketed (p.stateOf input.ev.symbol.asU64) + input.ev.qty.toNat < 2 ^ 32

/-- Every bucket that the input closes is charged with a ratio, and a ratio is reported. -/
def ReportsRatios (p : FeaturePipeline ℚ) (input : FeatureInput ℚ) : Prop :=
  (Trades input → ∀ tox,
      Charges p.cfg (loopEntry p.cfg (p.stateOf input.ev.symbol.asU64) input.ev input.nbbo) tox →
      IsRatio tox) ∧
    ∀ fv ∈ (p.onEvent input.ev input.nbbo input.queueAheadHint).2, IsRatio fv.vpin

/-- The volumes with the trade split fairly. -/
def TradesFairly (p : FeaturePipeline ℚ) (input : FeatureInput ℚ) : Prop :=
  Trades input → SplitsFairly p.cfg.vpinBucketVolume.toNat
    (tradedBuy (p.stateOf input.ev.symbol.asU64) input.ev).toNat
    (tradedSell (p.stateOf input.ev.symbol.asU64) input.ev).toNat

theorem loopEntry_charges_iff (ev : BookEvent) (nbbo : Nbbo)
    (fits : bucketed s + ev.qty.toNat < 2 ^ 32) :
    (∀ tox, Charges cfg (loopEntry cfg s ev nbbo) tox → IsRatio tox) ↔
      SplitsFairly cfg.vpinBucketVolume.toNat (tradedBuy s ev).toNat (tradedSell s ev).toNat := by
  obtain ⟨buy, sell⟩ := enterTrade_sides Binary64.rat_signLiterals
    (updateOfi cfg s nbbo ev.exchangeTsNs) ev (midOf nbbo)
  have small : bucketed (loopEntry cfg s ev nbbo) < 2 ^ 32 := by
    rw [bucketed, loopEntry, buy, sell]
    exact (traded_le (updateOfi cfg s nbbo ev.exchangeTsNs) ev).trans_lt fits
  rw [charges_iff small, loopEntry, buy, sell]
  rfl

/-- The states that a run reaches while it reports ratios. -/
def SlotsSound (p : FeaturePipeline ℚ) : Prop :=
  p.CacheSound ∧ ∀ symbol, SlotsRatio (p.stateOf symbol)

theorem SlotsSound.next (sound : SlotsSound p) (reports : ReportsRatios p input) :
    SlotsSound (p.step input) := by
  obtain ⟨kept, -, states, -⟩ :=
    sound.1.onEvent_spec input.ev input.nbbo input.queueAheadHint
  refine ⟨kept, fun symbol => ?_⟩
  rw [step, states]
  split
  · next own =>
    obtain ⟨both, rfl⟩ := own
    exact updateState_ratio (sound.2 _) input.ev input.nbbo fun trade => reports.1 ⟨both, trade⟩
  · exact sound.2 symbol

theorem SlotsSound.reports_iff (sound : SlotsSound p) (fits : SumsFit p input) :
    ReportsRatios p input ↔ TradesFairly p input := by
  have charges : (Trades input → ∀ tox,
      Charges p.cfg (loopEntry p.cfg (p.stateOf input.ev.symbol.asU64) input.ev input.nbbo) tox →
      IsRatio tox) ↔ TradesFairly p input :=
    forall_congr' fun trades => loopEntry_charges_iff input.ev input.nbbo (fits trades)
  rw [ReportsRatios, charges, and_iff_left_iff_imp]
  intro fair fv made
  obtain ⟨-, -, -, out⟩ := sound.1.onEvent_spec input.ev input.nbbo input.queueAheadHint
  rw [out] at made
  split at made
  · next both =>
    cases made
    exact vpinOf_ratio (updateState_ratio (sound.2 _) input.ev input.nbbo
      fun trade => charges.mpr fair ⟨both, trade⟩) p.cfg
  · cases made

/-- All along a run every toxicity and every reported value is a ratio exactly if all trades
split fairly. -/
theorem vpin_ratio_iff (cfg : FeatureConfig) (inputs : List (FeatureInput ℚ))
    (fits : Run.Along step SumsFit ({ cfg } : FeaturePipeline ℚ) inputs) :
    Run.Along step ReportsRatios ({ cfg } : FeaturePipeline ℚ) inputs ↔
      Run.Along step TradesFairly ({ cfg } : FeaturePipeline ℚ) inputs := by
  refine fits.congr_of_invariant (I := SlotsSound) (fun p input sound small => sound.reports_iff small)
    (fun p input sound _ reports => sound.next reports) ⟨initial_cacheSound cfg, fun symbol x held => ?_⟩
  have zero : x = ofNat 0 := by simpa [stateOf] using held
  rw [zero]
  exact zero_isRatio

/-- A print of two buckets and a half charges them with 25 and 15 tenths. -/
theorem large_print_exceeds :
    SumsFit { cfg := bucketsOfTen } (printOf .buy 25) ∧
      (onEvent { cfg := bucketsOfTen } (printOf .buy 25).ev (printOf .buy 25).nbbo 0).2.map
        FeatureVector.vpin = some (2 : ℚ) ∧
      ¬ ReportsRatios { cfg := bucketsOfTen } (printOf .buy 25) := by
  have reported : (onEvent { cfg := bucketsOfTen } (printOf .buy 25).ev (printOf .buy 25).nbbo 0).2.map
      FeatureVector.vpin = some (2 : ℚ) := by decide +kernel
  refine ⟨fun _ => by decide +kernel, reported, fun reports => ?_⟩
  obtain ⟨fv, made, vpin⟩ := Option.map_eq_some_iff.mp reported
  have ratio := reports.2 fv made
  rw [vpin] at ratio
  exact absurd ratio.2 (by norm_num)

/-- A print of half a bucket splits fairly. -/
theorem vpin_ratio_small_print :
    Run.Along step ReportsRatios { cfg := bucketsOfTen } [printOf .buy 5] :=
  (vpin_ratio_iff bucketsOfTen [printOf .buy 5] ⟨fun _ => by decide +kernel, trivial⟩).mpr
    ⟨fun _ => .inl (by decide +kernel), trivial⟩

end Exact

end FeaturePipeline

end FeedHandler
