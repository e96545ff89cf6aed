import FeedHandler.Phase3.FeatureStates

/-! The volume buckets of VPIN. However a trade splits into buckets, its volume is kept: each
closed bucket takes one bucket volume, and what is left over is all on one side. -/
namespace FeedHandler

/-- What the source relies on when it compares the sign of a trade with zero. -/
structure Binary64.SignLiterals (D : Type*) [Binary64 D] : Prop where
  one_pos : (Binary64.ofNat 0 : D) < Binary64.ofNat 1
  minus_one_neg : -(Binary64.ofNat 1 : D) < Binary64.ofNat 0
  minus_one_not_pos : ¬ (Binary64.ofNat 0 : D) < -Binary64.ofNat 1
  zero_not_pos : ¬ (Binary64.ofNat 0 : D) < Binary64.ofNat 0

theorem Binary64.rat_signLiterals : Binary64.SignLiterals ℚ := by
  constructor <;> decide

namespace FeaturePipeline

variable {D : Type*} [Binary64 D] {cfg : FeatureConfig} {s : FeatureState D} {fuel n : Nat}

open Binary64 (ofNat ofRat fabs)

/-- The volume in the bucket that is being filled. -/
def bucketed (s : FeatureState D) : Nat := s.vpinBucketBuy.toNat + s.vpinBucketSell.toNat

theorem volume_toNat_pos (cfg : FeatureConfig) : 0 < cfg.vpinBucketVolume.toNat :=
  UInt32.lt_iff_toNat_lt.mp cfg.volume_pos

theorem bucket_sum (fits : bucketed s < 2 ^ 32) :
    (s.vpinBucketBuy + s.vpinBucketSell).toNat = bucketed s := by
  rw [UInt32.toNat_add]
  exact Nat.mod_eq_of_lt fits

/-- A bucket is full in the test of the loop. -/
theorem full_iff (fits : bucketed s < 2 ^ 32) :
    s.vpinBucketBuy + s.vpinBucketSell ≥ cfg.vpinBucketVolume ↔
      cfg.vpinBucketVolume.toNat ≤ bucketed s := by
  rw [ge_iff_le, UInt32.le_iff_toNat_le, bucket_sum fits]

/-- A closed bucket leaves the excess on the side that did not fill it. -/
theorem closeBucket_sides (fits : bucketed s < 2 ^ 32)
    (full : cfg.vpinBucketVolume.toNat ≤ bucketed s) :
    (closeBucket cfg s).vpinBucketBuy.toNat =
        (if s.vpinBucketSell.toNat < cfg.vpinBucketVolume.toNat then
          bucketed s - cfg.vpinBucketVolume.toNat else 0) ∧
      (closeBucket cfg s).vpinBucketSell.toNat =
        if s.vpinBucketSell.toNat < cfg.vpinBucketVolume.toNat then 0
        else bucketed s - cfg.vpinBucketVolume.toNat := by
  have positive := volume_toNat_pos cfg
  have excess : (s.vpinBucketBuy + s.vpinBucketSell - cfg.vpinBucketVolume).toNat =
      bucketed s - cfg.vpinBucketVolume.toNat := by
    rw [UInt32.toNat_sub_of_le _ _ ((full_iff fits).mpr full), bucket_sum fits]
  simp only [closeBucket, gt_iff_lt, UInt32.lt_iff_toNat_lt, excess]
  unfold bucketed at *
  by_cases small : s.vpinBucketSell.toNat < cfg.vpinBucketVolume.toNat
  · have side : s.vpinBucketBuy.toNat + s.vpinBucketSell.toNat - cfg.vpinBucketVolume.toNat <
        s.vpinBucketBuy.toNat := by omega
    simp only [if_pos small, if_pos side, excess, true_and]
    split
    · simp
    · rfl
  · have side : ¬ s.vpinBucketBuy.toNat + s.vpinBucketSell.toNat - cfg.vpinBucketVolume.toNat <
        s.vpinBucketBuy.toNat := by omega
    have some_sell : (0 : UInt32).toNat < s.vpinBucketSell.toNat := by
      rw [UInt32.toNat_zero]
      omega
    simp only [if_neg small, if_neg side, if_pos some_sell]
    simp [excess]

/-- One round of the loop takes one bucket volume. -/
theorem bucketed_closeBucket (fits : bucketed s < 2 ^ 32)
    (full : cfg.vpinBucketVolume.toNat ≤ bucketed s) :
    bucketed (closeBucket cfg s) = bucketed s - cfg.vpinBucketVolume.toNat := by
  obtain ⟨buy, sell⟩ := closeBucket_sides fits full
  rw [bucketed, buy, sell]
  split <;> omega

/-- The loop over the buckets ends after `n` rounds, in the second state. -/
inductive BucketLoop (cfg : FeatureConfig) : Nat → FeatureState D → FeatureState D → Prop where
  | stop {s : FeatureState D} (open_bucket : ¬ s.vpinBucketBuy + s.vpinBucketSell ≥ cfg.vpinBucketVolume) :
    BucketLoop cfg 0 s s
  | close {n : Nat} {s last : FeatureState D}
    (full : s.vpinBucketBuy + s.vpinBucketSell ≥ cfg.vpinBucketVolume)
    (rest : BucketLoop cfg n (closeBucket cfg s) last) : BucketLoop cfg (n + 1) s last

/-- The loop takes as many rounds as whole buckets fit in the volume. -/
theorem bucketLoop_closeBuckets (cfg : FeatureConfig) (fits : bucketed s < 2 ^ 32)
    (enough : bucketed s ≤ fuel) :
    BucketLoop cfg (bucketed s / cfg.vpinBucketVolume.toNat) s (closeBuckets cfg fuel s) ∧
      bucketed (closeBuckets cfg fuel s) = bucketed s % cfg.vpinBucketVolume.toNat := by
  have positive := volume_toNat_pos cfg
  induction fuel generalizing s with
  | zero =>
    have below : bucketed s < cfg.vpinBucketVolume.toNat := by omega
    rw [Nat.div_eq_of_lt below, Nat.mod_eq_of_lt below]
    exact ⟨.stop (mt (full_iff fits).mp (by omega)), rfl⟩
  | succ fuel ih =>
    rw [closeBuckets]
    by_cases full : cfg.vpinBucketVolume.toNat ≤ bucketed s
    · have closed := bucketed_closeBucket fits full
      obtain ⟨rounds, rest⟩ := ih (s := closeBucket cfg s) (by omega) (by omega)
      rw [closed] at rounds rest
      rw [if_pos ((full_iff fits).mpr full), Nat.div_eq_sub_div positive full, rest,
        Nat.mod_eq_sub_mod full]
      exact ⟨.close ((full_iff fits).mpr full) rounds, rfl⟩
    · have below : bucketed s < cfg.vpinBucketVolume.toNat := by omega
      rw [if_neg (mt (full_iff fits).mp full), Nat.div_eq_of_lt below, Nat.mod_eq_of_lt below]
      exact ⟨.stop (mt (full_iff fits).mp full), rfl⟩

/-- The volume on the side of the trade, once the trade is added. -/
def tradedBuy (s : FeatureState D) (ev : BookEvent) : UInt32 :=
  if ev.side = .buy then s.vpinBucketBuy + ev.qty else s.vpinBucketBuy

def tradedSell (s : FeatureState D) (ev : BookEvent) : UInt32 :=
  if ev.side = .sell then s.vpinBucketSell + ev.qty else s.vpinBucketSell

/-- The state in which a trade enters the loop over the buckets. -/
def enterTrade (s : FeatureState D) (ev : BookEvent) (mid : D) : FeatureState D :=
  let eff : D := ofNat 2 * fabs (ofNat ev.price.toNat - mid)
  let sign : D := match ev.side with
    | .buy => ofNat 1
    | .sell => -ofNat 1
    | .unknown => ofNat 0
  let x : D := sign * ofNat ev.qty.toNat
  let y : D := if s.hasMid then mid - s.lastMid else ofNat 0
  { s with
    effectiveSpreadEma :=
      if s.hasEffectiveSpread then ofRat (95 / 100) * s.effectiveSpreadEma + ofRat (5 / 100) * eff
      else eff
    hasEffectiveSpread := true
    regN := s.regN + 1
    regSumX := s.regSumX + x
    regSumY := s.regSumY + y
    regSumXx := s.regSumXx + x * x
    regSumXy := s.regSumXy + x * y
    vpinBucketBuy := if ofNat 0 < sign then s.vpinBucketBuy + ev.qty else s.vpinBucketBuy
    vpinBucketSell :=
      if ¬ ofNat 0 < sign ∧ sign < ofNat 0 then s.vpinBucketSell + ev.qty else s.vpinBucketSell }

theorem updateTrade_eq (cfg : FeatureConfig) (s : FeatureState D) (ev : BookEvent) (mid : D) :
    updateTrade cfg s ev mid = closeBuckets cfg
      ((enterTrade s ev mid).vpinBucketBuy + (enterTrade s ev mid).vpinBucketSell).toNat
      (enterTrade s ev mid) := rfl

theorem enterTrade_sides (literals : Binary64.SignLiterals D) (s : FeatureState D) (ev : BookEvent)
    (mid : D) :
    (enterTrade s ev mid).vpinBucketBuy = tradedBuy s ev ∧
      (enterTrade s ev mid).vpinBucketSell = tradedSell s ev := by
  unfold enterTrade
  extract_lets eff sign x y
  have positive : ofNat 0 < sign ↔ ev.side = .buy := by
    simp only [sign]
    cases ev.side <;> simp [literals.one_pos, literals.minus_one_not_pos, literals.zero_not_pos]
  have negative : ¬ ofNat 0 < sign ∧ sign < ofNat 0 ↔ ev.side = .sell := by
    simp only [sign]
    cases ev.side <;> simp [literals.one_pos, literals.minus_one_not_pos, literals.zero_not_pos,
      literals.minus_one_neg]
  exact ⟨if_congr positive rfl rfl, if_congr negative rfl rfl⟩

theorem vpinSize_closeBucket (room : s.vpinSize ≤ maxBuckets cfg) :
    (closeBucket cfg s).vpinSize ≤ maxBuckets cfg := by
  simp only [closeBucket]
  split
  · next free => exact free
  · split <;> exact room

theorem vpinSize_closeBuckets (room : s.vpinSize ≤ maxBuckets cfg) (fuel : Nat) :
    (closeBuckets cfg fuel s).vpinSize ≤ maxBuckets cfg := by
  induction fuel generalizing s with
  | zero => exact room
  | succ fuel ih =>
    rw [closeBuckets]
    split
    · exact ih (vpinSize_closeBucket room)
    · exact room

/-- No more buckets are stored than are wanted and than the array has. -/
theorem vpinSize_updateState (room : s.vpinSize ≤ maxBuckets cfg) (ev : BookEvent) (nbbo : Nbbo) :
    (updateState cfg s ev nbbo).vpinSize ≤ maxBuckets cfg := by
  simp only [updateState]
  split
  · rw [updateTrade_eq]
    refine vpinSize_closeBuckets ?_ _
    exact room
  · exact room

theorem traded_le (s : FeatureState D) (ev : BookEvent) :
    (tradedBuy s ev).toNat + (tradedSell s ev).toNat ≤ bucketed s + ev.qty.toNat := by
  unfold bucketed
  cases side : ev.side <;>
    simp only [tradedBuy, tradedSell, side, if_true, reduceCtorEq, if_false, UInt32.toNat_add] <;>
    omega

/-- The volumes of both sides and the volume of a trade. -/
theorem traded_sum {ev : BookEvent} (sided : ev.side ≠ .unknown)
    (fits : bucketed s + ev.qty.toNat < 2 ^ 32) :
    (tradedBuy s ev).toNat + (tradedSell s ev).toNat = bucketed s + ev.qty.toNat := by
  unfold bucketed at *
  cases side : ev.side with
  | buy =>
    simp only [tradedBuy, tradedSell, side, if_true, reduceCtorEq, if_false, UInt32.toNat_add]
    omega
  | sell =>
    simp only [tradedBuy, tradedSell, side, if_true, reduceCtorEq, if_false, UInt32.toNat_add]
    omega
  | unknown => exact absurd side sided

/-- The state in which an event enters the loop, if it is a trade. -/
def loopEntry (cfg : FeatureConfig) (s : FeatureState D) (ev : BookEvent) (nbbo : Nbbo) :
    FeatureState D :=
  enterTrade (updateOfi cfg s nbbo ev.exchangeTsNs) ev (midOf nbbo)

/-- A trade runs the loop once for every whole bucket in the volume. -/
theorem updateState_trade (literals : Binary64.SignLiterals D) (cfg : FeatureConfig)
    {ev : BookEvent} (nbbo : Nbbo) (trade : ev.type = .trade ∨ ev.type = .crossTrade)
    (sided : ev.side ≠ .unknown) (fits : bucketed s + ev.qty.toNat < 2 ^ 32) :
    ∃ closed, BucketLoop cfg ((bucketed s + ev.qty.toNat) / cfg.vpinBucketVolume.toNat)
        (loopEntry cfg s ev nbbo) closed ∧
      updateState cfg s ev nbbo = { closed with lastMid := midOf nbbo, hasMid := true } ∧
      bucketed closed = (bucketed s + ev.qty.toNat) % cfg.vpinBucketVolume.toNat := by
  have sides := enterTrade_sides literals (updateOfi cfg s nbbo ev.exchangeTsNs) ev (midOf nbbo)
  have sum : bucketed (loopEntry cfg s ev nbbo) = bucketed s + ev.qty.toNat := by
    rw [bucketed, loopEntry, sides.1, sides.2]
    exact traded_sum (s := updateOfi cfg s nbbo ev.exchangeTsNs) sided fits
  have small : bucketed (loopEntry cfg s ev nbbo) < 2 ^ 32 := by omega
  obtain ⟨rounds, rest⟩ := bucketLoop_closeBuckets cfg small (bucket_sum small).ge
  rw [sum] at rounds rest
  refine ⟨_, rounds, ?_, rest⟩
  simp only [updateState, if_pos trade]
  rfl

/-- In every reachable state a trade of `q` runs the loop for as many rounds as whole buckets
fit in the volume it finds and its own, and leaves the remainder in the open bucket. -/
theorem vpin_volume_conserved (literals : Binary64.SignLiterals D) (cfg : FeatureConfig)
    (inputs : List (FeatureInput D)) :
    let p := reached cfg inputs
    (∀ symbol, (p.stateOf symbol).vpinSize ≤ min cfg.vpinBucketCount 64) ∧
      ∀ input : FeatureInput D, quoted input.nbbo = true →
        input.ev.type = .trade ∨ input.ev.type = .crossTrade → input.ev.side ≠ .unknown →
        let s := p.stateOf input.ev.symbol.asU64
        let after := (p.step input).stateOf input.ev.symbol.asU64
        let total := bucketed s + input.ev.qty.toNat
        total < 2 ^ 32 →
          (∃ closed, BucketLoop cfg (total / cfg.vpinBucketVolume.toNat)
              (loopEntry cfg s input.ev input.nbbo) closed ∧
            after = { closed with lastMid := midOf input.nbbo, hasMid := true }) ∧
          bucketed after = total % cfg.vpinBucketVolume.toNat := by
  intro p
  obtain ⟨-, -, states⟩ := reached_spec cfg inputs
  constructor
  · intro symbol
    rw [states]
    exact Run.invariant (P := fun s : FeatureState D => s.vpinSize ≤ maxBuckets cfg)
      (fun s input room => vpinSize_updateState room input.ev input.nbbo) _ (Nat.zero_le _)
  · intro input both trade sided s after total fits
    obtain ⟨closed, rounds, updated, rest⟩ :=
      updateState_trade literals cfg input.nbbo trade sided fits
    have next : after = updateState cfg s input.ev input.nbbo := (reached_step cfg inputs both).1
    rw [next, updated]
    exact ⟨⟨closed, rounds, rfl⟩, rest⟩

def bucketsOfTen : FeatureConfig := { vpinBucketVolume := 10, volume_pos := by decide }

/-- A print in the middle of a quote. -/
def printOf (side : Side) (qty : UInt32) : FeatureInput ℚ where
  ev := { type := .trade, side := side, price := 101, qty := qty }
  nbbo := { hasBid := true, hasAsk := true, bidPrice := 100, askPrice := 102 }
  queueAheadHint := 0

/-- A sale of 25 after a purchase of 7. -/
theorem vpin_volume_conserved_print :
    bucketed (((reached bucketsOfTen [printOf .buy 7]).step (printOf .sell 25)).stateOf 0) =
      (bucketed ((reached bucketsOfTen [printOf .buy 7]).stateOf 0) + 25) % 10 :=
  ((vpin_volume_conserved Binary64.rat_signLiterals bucketsOfTen [printOf .buy 7]).2
    (printOf .sell 25) rfl (.inl rfl) (by decide) (by decide +kernel)).2

/-- A sale of 25 while there is a bid and no ask. -/
def bidOnlyPrint : FeatureInput ℚ where
  ev := { type := .trade, side := .sell, price := 100, qty := 25 }
  nbbo := { hasBid := true, bidPrice := 100 }
  queueAheadHint := 0

/-- Without a quote on both sides the source returns before the loop: two whole buckets and
five shares are not counted. -/
theorem bidOnlyPrint_uncounted :
    ¬ bucketed (((reached bucketsOfTen []).step bidOnlyPrint).stateOf 0) =
      (bucketed ((reached (D := ℚ) bucketsOfTen []).stateOf 0) + 25) % 10 := by
  decide +kernel

end FeaturePipeline

end FeedHandler
