import FeedHandler.Lib.DigitPrefix
import FeedHandler.Proto.Mdp3

/-! Which instruments the symbols of the MDP3 parser tell apart. A symbol is the decimal
form of a security id cut to eight characters, so longer ids share their symbols, and with
them their books. -/
namespace FeedHandler
namespace Mdp3
open DigitPrefix

/-- The id whose decimal form fills the symbol: what is left of eight characters, one of
them the sign. -/
def shownId (a : Int) : Int :=
  if a < 0 then -(leading 10 7 a.natAbs : Int) else leading 10 8 a.natAbs

/-- The two ids have symbols of their own, and books of their own. -/
def KeptApart (a b : Int32) : Prop :=
  (securityIdToSymbol a = securityIdToSymbol b → a = b) ∧
    ((securityIdToSymbol a).asU64 = (securityIdToSymbol b).asU64 → a = b)

section Numerals

/-- The digits of a number without its sign. -/
def numeral (m : Nat) : List UInt8 :=
  (if m = 0 then [0] else (Nat.digits 10 m).reverse).map
    fun digit => UInt8.ofNat ('0'.toNat + digit)

theorem decimal_nonneg {a : Int} (sign : ¬ a < 0) : decimal a = numeral a.natAbs := by
  simp only [decimal, numeral, if_neg sign, List.nil_append, Int.natAbs_eq_zero]

theorem decimal_neg {a : Int} (sign : a < 0) : decimal a = '-'.toUInt8 :: numeral a.natAbs := by
  simp only [decimal, numeral, if_pos sign, List.singleton_append, Int.natAbs_eq_zero]

theorem digit_toNat {d : Nat} (small : d < 10) : (UInt8.ofNat ('0'.toNat + d)).toNat = 48 + d := by
  have zero : '0'.toNat = 48 := rfl
  rw [UInt8.toNat_ofNat', zero]
  omega

theorem digits_small (m : Nat) :
    ∀ d ∈ if m = 0 then [0] else (Nat.digits 10 m).reverse, d < 10 := by
  intro d listed
  split at listed
  · simp only [List.mem_singleton] at listed
    omega
  · exact Nat.digits_lt_base (by decide) (List.mem_reverse.mp listed)

theorem numeral_chars {m : Nat} {c : UInt8} (listed : c ∈ numeral m) : 48 ≤ c.toNat := by
  obtain ⟨d, digit, rfl⟩ := List.mem_map.mp listed
  rw [digit_toNat (digits_small m d digit)]
  omega

/-- Reading the digits back gives the number. -/
theorem numeral_spells (m : Nat) :
    Nat.ofDigits 10 ((numeral m).map fun c => c.toNat - 48).reverse = m := by
  have back : (numeral m).map (fun c => c.toNat - 48) =
      if m = 0 then [0] else (Nat.digits 10 m).reverse := by
    rw [numeral, List.map_map]
    refine (List.map_congr_left fun d digit => ?_).trans (List.map_id _)
    rw [Function.comp_apply, digit_toNat (digits_small m d digit), Nat.add_sub_cancel_left, id]
  rw [back]
  by_cases zero : m = 0
  · simp [zero]
  · rw [if_neg zero, List.reverse_reverse, Nat.ofDigits_digits]

theorem numeral_inj {m k : Nat} : numeral m = numeral k ↔ m = k := by
  constructor
  · intro same
    rw [← numeral_spells m, same, numeral_spells]
  · rintro rfl
    rfl

theorem take_numeral_chars (room m : Nat) :
    (numeral m).take (room + 1) = numeral (leading 10 (room + 1) m) := by
  have ten : 1 < 10 := by decide
  by_cases zero : m = 0
  · subst zero
    rw [leading_of_lt ten (Nat.pow_pos (by decide))]
    simp [numeral]
  · have positive : 0 < leading 10 (room + 1) m := leading_pos ten (Nat.pos_of_ne_zero zero)
    rw [numeral, numeral, if_neg zero, if_neg (by omega), ← List.map_take, take_numeral ten]

theorem shownId_sign (a : Int) : shownId a < 0 ↔ a < 0 := by
  simp only [shownId]
  split
  · have positive : 0 < leading 10 7 a.natAbs := leading_pos (by decide) (by omega)
    omega
  · omega

/-- The first eight characters are the decimal form of the id that is shown. -/
theorem take_decimal (a : Int) : (decimal a).take 8 = decimal (shownId a) := by
  by_cases sign : a < 0
  · have size : (shownId a).natAbs = leading 10 7 a.natAbs := by
      rw [shownId, if_pos sign, Int.natAbs_neg, Int.natAbs_natCast]
    rw [decimal_neg sign, decimal_neg ((shownId_sign a).mpr sign), List.take_succ_cons,
      take_numeral_chars, size]
  · have size : (shownId a).natAbs = leading 10 8 a.natAbs := by
      rw [shownId, if_neg sign, Int.natAbs_natCast]
    rw [decimal_nonneg sign, decimal_nonneg (mt (shownId_sign a).mp sign), take_numeral_chars, size]

/-- Different numbers have different decimal forms. -/
theorem decimal_inj {a b : Int} : decimal a = decimal b ↔ a = b := by
  constructor
  · intro same
    have minus : ∀ m, '-'.toUInt8 ∉ numeral m := by
      intro m listed
      exact absurd (numeral_chars listed) (by decide)
    by_cases aSign : a < 0 <;> by_cases bSign : b < 0
    · rw [decimal_neg aSign, decimal_neg bSign, List.cons_inj_right, numeral_inj] at same
      omega
    · rw [decimal_neg aSign, decimal_nonneg bSign] at same
      exact absurd (same ▸ List.mem_cons_self) (minus _)
    · rw [decimal_nonneg aSign, decimal_neg bSign] at same
      exact absurd (same ▸ List.mem_cons_self) (minus _)
    · rw [decimal_nonneg aSign, decimal_nonneg bSign, numeral_inj] at same
      omega
  · rintro rfl
    rfl

theorem blank_not_mem_decimal (a : Int) : ' '.toUInt8 ∉ decimal a := by
  have absent : ∀ m, ' '.toUInt8 ∉ numeral m := by
    intro m listed
    exact absurd (numeral_chars listed) (by decide)
  by_cases sign : a < 0
  · rw [decimal_neg sign, List.mem_cons]
    exact not_or.mpr ⟨by decide, absent _⟩
  · rw [decimal_nonneg sign]
    exact absent _

end Numerals

section Symbols

/-- Padded with a character that neither has, two strings look alike in the first `width`
places only if they start alike. -/
theorem take_eq_of_padded {xs ys : List UInt8} {pad : UInt8} {width : Nat} (xsFree : pad ∉ xs)
    (ysFree : pad ∉ ys) (alike : ∀ i < width, xs.getD i pad = ys.getD i pad) :
    xs.take width = ys.take width := by
  apply List.ext_getElem?
  intro i
  rw [List.getElem?_take, List.getElem?_take]
  by_cases inside : i < width
  · have same := alike i inside
    simp only [List.getD_eq_getElem?_getD] at same
    rw [if_pos inside, if_pos inside]
    cases x : xs[i]? with
    | none =>
      cases y : ys[i]? with
      | none => rfl
      | some c =>
        rw [x, y, Option.getD_none, Option.getD_some] at same
        exact absurd (same ▸ List.mem_of_getElem? y) ysFree
    | some c =>
      cases y : ys[i]? with
      | none =>
        rw [x, y, Option.getD_none, Option.getD_some] at same
        exact absurd (same ▸ List.mem_of_getElem? x) xsFree
      | some d =>
        rw [x, y, Option.getD_some, Option.getD_some] at same
        rw [same]
  · rw [if_neg inside, if_neg inside]

variable {a b : Int32}

/-- Two ids that are given have one symbol exactly if their symbols show one id. -/
theorem symbol_eq_iff (aGiven : a ≠ Int32.minValue) (bGiven : b ≠ Int32.minValue) :
    securityIdToSymbol a = securityIdToSymbol b ↔ shownId a.toInt = shownId b.toInt := by
  rw [← decimal_inj, ← take_decimal, ← take_decimal]
  simp only [securityIdToSymbol, if_neg aGiven, if_neg bGiven, SymbolKey.mk.injEq]
  constructor
  · intro same
    refine take_eq_of_padded (blank_not_mem_decimal _) (blank_not_mem_decimal _) ?_
    intro i inside
    have place := congrArg (fun bytes => bytes[i]?) same
    simpa [inside] using place
  · intro same
    apply Vector.ext
    intro i inside
    have place := congrArg (fun chars => chars[i]?) same
    simp only [List.getElem?_take, if_pos inside] at place
    simp [List.getD_eq_getElem?_getD, place]

/-- Which ids an id shares its symbol with, in terms of the numbers alone. -/
theorem keptApart_iff (aGiven : a ≠ Int32.minValue) (bGiven : b ≠ Int32.minValue) :
    KeptApart a b ↔ a = b ∨ shownId a.toInt ≠ shownId b.toInt := by
  rw [KeptApart, SymbolKey.asU64_inj, and_self, symbol_eq_iff aGiven bGiven]
  tauto

/-- An id of at most seven characters leaves room in the symbol, so no other id is shown as
it. -/
theorem shownId_unique {x y : Int} (low : -10 ^ 6 < x) (high : x < 10 ^ 7)
    (same : shownId y = shownId x) : y = x := by
  have signs : y < 0 ↔ x < 0 := by rw [← shownId_sign y, same, shownId_sign x]
  simp only [shownId] at same
  by_cases sign : x < 0
  · rw [if_pos sign, if_pos (signs.mpr sign)] at same
    have kept : leading 10 7 y.natAbs = leading 10 7 x.natAbs := by omega
    have size := eq_of_leading_eq (by decide) (show x.natAbs < 10 ^ 6 by omega) kept
    omega
  · rw [if_neg sign, if_neg (mt signs.mp sign)] at same
    have kept : leading 10 8 y.natAbs = leading 10 8 x.natAbs := by omega
    have size := eq_of_leading_eq (by decide) (show x.natAbs < 10 ^ 7 by omega) kept
    omega

/-- A number with more digits is shown as another one in range: with a zero behind it where
it fills the room, as what is left of it where it exceeds the room. -/
theorem exists_leading_eq {room m : Nat} (large : 10 ^ room ≤ m) :
    ∃ k, k ≠ m ∧ 0 < k ∧ (k < m ∨ m < 10 ^ (room + 1) ∧ k = 10 * m) ∧
      leading 10 (room + 1) k = leading 10 (room + 1) m := by
  have ten : 1 < 10 := by decide
  have positive : 0 < m := (Nat.pow_pos (by decide)).trans_le large
  by_cases fits : m < 10 ^ (room + 1)
  · refine ⟨10 * m, by omega, by omega, Or.inr ⟨fits, rfl⟩, ?_⟩
    rw [leading_mul ten large fits, leading_of_lt ten fits]
  · have cut := leading_lt ten (room + 1) m
    exact ⟨leading 10 (room + 1) m, by omega, leading_pos ten positive, Or.inl (by omega),
      leading_of_lt ten cut⟩

theorem exists_shownId_eq {x : Int} (low : -2 ^ 31 < x) (high : x < 2 ^ 31)
    (wide : x ≤ -10 ^ 6 ∨ 10 ^ 7 ≤ x) :
    ∃ y, y ≠ x ∧ -2 ^ 31 < y ∧ y < 2 ^ 31 ∧ shownId y = shownId x := by
  cases wide with
  | inl negative =>
    obtain ⟨k, other, positive, size, same⟩ :=
      exists_leading_eq (show 10 ^ 6 ≤ x.natAbs by omega)
    refine ⟨-k, by omega, by omega, by omega, ?_⟩
    rw [shownId, shownId, if_pos (by omega), if_pos (by omega), Int.natAbs_neg, Int.natAbs_natCast,
      same]
  | inr positive =>
    obtain ⟨k, other, -, size, same⟩ := exists_leading_eq (show 10 ^ 7 ≤ x.natAbs by omega)
    refine ⟨k, by omega, by omega, by omega, ?_⟩
    rw [shownId, shownId, if_neg (by omega), if_neg (by omega), Int.natAbs_natCast, same]

end Symbols

/-- Two ids that are given keep their books apart exactly if their decimal forms differ
within eight characters; an id keeps apart from all others exactly if it has at most seven
characters. -/
theorem security_ids_apart_iff (a b : Int32) (aGiven : a ≠ Int32.minValue)
    (bGiven : b ≠ Int32.minValue) :
    (KeptApart a b ↔ a = b ∨ shownId a.toInt ≠ shownId b.toInt) ∧
      ((∀ c : Int32, c ≠ Int32.minValue → KeptApart a c) ↔
        -10 ^ 6 < a.toInt ∧ a.toInt < 10 ^ 7) := by
  refine ⟨keptApart_iff aGiven bGiven, ?_⟩
  constructor
  · intro apart
    by_contra wide
    have low : -2 ^ 31 < a.toInt := by
      have least := Int32.le_toInt a
      have other : a.toInt ≠ Int32.minValue.toInt := fun same => aGiven (Int32.toInt_inj.mp same)
      rw [Int32.toInt_minValue] at other
      omega
    obtain ⟨y, other, yLow, yHigh, same⟩ :=
      exists_shownId_eq low (Int32.toInt_lt a) (by omega)
    have value : (Int32.ofInt y).toInt = y := Int32.toInt_ofInt_of_le (by omega) yHigh
    have given : Int32.ofInt y ≠ Int32.minValue := by
      intro null
      rw [null, Int32.toInt_minValue] at value
      omega
    have kept := (keptApart_iff aGiven given).mp (apart _ given)
    rw [value] at kept
    cases kept with
    | inl equal =>
      rw [← equal] at value
      omega
    | inr distinct => exact distinct same.symm
  · rintro ⟨low, high⟩ c cGiven
    rw [keptApart_iff aGiven cGiven]
    by_cases same : shownId a.toInt = shownId c.toInt
    · exact Or.inl (Int32.toInt_inj.mp (shownId_unique low high same.symm).symm)
    · exact Or.inr same

theorem security_ids_apart_nine_digits :
    KeptApart 123456789 987654321 ∧ ¬ ∀ c : Int32, c ≠ Int32.minValue → KeptApart 123456789 c := by
  have decided := security_ids_apart_iff 123456789 987654321 (by decide) (by decide)
  have shown : shownId (123456789 : Int32).toInt ≠ shownId (987654321 : Int32).toInt := by
    decide +kernel
  exact ⟨decided.1.mpr (Or.inr shown), fun apart => absurd (decided.2.mp apart).2 (by decide)⟩

/-- Two ids of nine digits that differ in the last one share a symbol and a book. -/
theorem security_ids_merge :
    ¬ ∀ a b : Int32, a ≠ Int32.minValue → b ≠ Int32.minValue →
      securityIdToSymbol a = securityIdToSymbol b → a = b := by
  intro apart
  have same : securityIdToSymbol 100000000 = securityIdToSymbol 100000001 := by decide +kernel
  exact absurd (apart _ _ (by decide) (by decide) same) (by decide)

end Mdp3
end FeedHandler
