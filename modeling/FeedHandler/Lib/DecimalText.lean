import Mathlib.Algebra.Order.Field.Power
import Mathlib.Data.List.TakeWhile
import Mathlib.Data.Rat.Cast.Order
import Mathlib.Tactic.FieldSimp

/-! Decimal numbers as text. A scanner reads the longest prefix that spells a number; a
stream prints a number of at most `precision` digits in plain notation, or with an exponent
when the leading digit stands too far from the point. -/
namespace DecimalText

/-- The number that digits spell. -/
def spelled (digits : List Char) : Nat := Nat.ofDigitChars 10 digits 0

/-- Digits, a point and digits; nothing is read where neither side has a digit. -/
def readUnsigned (text : List Char) : Option ℚ :=
  let whole := text.takeWhile Char.isDigit
  let fraction :=
    match text.dropWhile Char.isDigit with
    | '.' :: behind => behind.takeWhile Char.isDigit
    | _ => []
  if whole = [] ∧ fraction = [] then none
  else some ((spelled (whole ++ fraction) : ℚ) / 10 ^ fraction.length)

/-- The longest prefix of the text that spells a number. -/
def readDecimal : List Char → Option ℚ
  | '-' :: body => (readUnsigned body).map fun value => -value
  | body => readUnsigned body

section Spelling

theorem spelled_append (front back : List Char) :
    spelled (front ++ back) = 10 ^ back.length * spelled front + spelled back := by
  simp only [spelled, Nat.ofDigitChars_append]
  exact Nat.ofDigitChars_eq_ofDigitChars_zero

theorem spelled_toDigits (n : Nat) : spelled (Nat.toDigits 10 n) = n :=
  Nat.ofDigitChars_ten_toDigits

theorem spelled_zeros (n : Nat) : spelled (List.replicate n '0') = 0 := by
  simp [spelled]

theorem isDigit_of_mem {c : Char} {n : Nat} (listed : c ∈ Nat.toDigits 10 n) :
    c.isDigit = true :=
  Nat.isDigit_of_mem_toDigits (by decide) (by decide) listed

theorem not_mem_toDigits {c : Char} (other : c.isDigit = false) (n : Nat) :
    c ∉ Nat.toDigits 10 n := by
  intro listed
  rw [isDigit_of_mem listed] at other
  contradiction

end Spelling

section Runs

variable {keeps : Char → Bool} {run rest : List Char}

/-- A run ends where the first other character stands. -/
theorem takeWhile_run (all : ∀ c ∈ run, keeps c = true) (ends : ∀ c ∈ rest.head?, keeps c = false) :
    (run ++ rest).takeWhile keeps = run := by
  rw [List.takeWhile_append_of_pos all]
  cases rest with
  | nil => simp
  | cons c rest => simp [ends c rfl]

theorem dropWhile_run (all : ∀ c ∈ run, keeps c = true) (ends : ∀ c ∈ rest.head?, keeps c = false) :
    (run ++ rest).dropWhile keeps = rest := by
  have split := List.takeWhile_append_dropWhile (p := keeps) (l := run ++ rest)
  rw [takeWhile_run all ends] at split
  exact List.append_cancel_left split

end Runs

section Reading

variable {whole fraction : List Char}

theorem readUnsigned_whole (digits : ∀ c ∈ whole, c.isDigit = true) (nonempty : whole ≠ []) :
    readUnsigned whole = some (spelled whole : ℚ) := by
  have taken : (whole ++ []).takeWhile Char.isDigit = whole := takeWhile_run digits (by simp)
  have dropped : (whole ++ []).dropWhile Char.isDigit = [] := dropWhile_run digits (by simp)
  rw [List.append_nil] at taken dropped
  simp [readUnsigned, taken, dropped, nonempty]

theorem readUnsigned_point (behind : List Char) (digits : ∀ c ∈ whole, c.isDigit = true)
    (after : ∀ c ∈ fraction, c.isDigit = true) (ends : ∀ c ∈ behind.head?, c.isDigit = false)
    (some_digit : ¬ (whole = [] ∧ fraction = [])) :
    readUnsigned (whole ++ '.' :: (fraction ++ behind)) =
      some ((spelled (whole ++ fraction) : ℚ) / 10 ^ fraction.length) := by
  have taken : (whole ++ '.' :: (fraction ++ behind)).takeWhile Char.isDigit = whole :=
    takeWhile_run digits (by simp)
  have dropped : (whole ++ '.' :: (fraction ++ behind)).dropWhile Char.isDigit =
      '.' :: (fraction ++ behind) := dropWhile_run digits (by simp)
  simp only [readUnsigned, taken, dropped, takeWhile_run after ends, if_neg some_digit]

theorem readDecimal_minus (body : List Char) :
    readDecimal ('-' :: body) = (readUnsigned body).map fun value => -value := rfl

theorem readDecimal_plain {body : List Char} (unsigned : body.head? ≠ some '-') :
    readDecimal body = readUnsigned body := by
  unfold readDecimal
  split
  · exact absurd rfl unsigned
  · rfl

end Reading

/-- Digits with a point before the last `places` of them. -/
def pointed (digits : List Char) (places : Nat) : List Char :=
  digits.take (digits.length - places) ++
    if places = 0 then [] else '.' :: digits.drop (digits.length - places)

theorem readUnsigned_pointed {digits : List Char} {places : Nat}
    (all : ∀ c ∈ digits, c.isDigit = true) (before : places < digits.length) :
    readUnsigned (pointed digits places) = some ((spelled digits : ℚ) / 10 ^ places) := by
  have front : digits.take (digits.length - places) ≠ [] := by
    rw [← List.length_pos_iff, List.length_take]
    omega
  have whole : ∀ c ∈ digits.take (digits.length - places), c.isDigit = true :=
    fun c listed => all c (List.mem_of_mem_take listed)
  by_cases none_behind : places = 0
  · simp only [pointed, none_behind, if_true, List.append_nil, Nat.sub_zero, List.take_length,
      pow_zero, div_one] at *
    exact readUnsigned_whole all front
  · have behind : ∀ c ∈ digits.drop (digits.length - places), c.isDigit = true :=
      fun c listed => all c (List.mem_of_mem_drop listed)
    have read := readUnsigned_point [] whole behind (by simp) (fun both => front both.1)
    have size : (digits.drop (digits.length - places)).length = places := by
      rw [List.length_drop]
      omega
    rw [List.append_nil, List.take_append_drop, size] at read
    simpa only [pointed, if_neg none_behind] using read

theorem mem_pointed {digits : List Char} {places : Nat} {c : Char}
    (listed : c ∈ pointed digits places) : c ∈ digits ∨ c = '.' := by
  rw [pointed, List.mem_append] at listed
  rcases listed with front | behind
  · exact Or.inl (List.mem_of_mem_take front)
  · split at behind
    · contradiction
    · rcases List.mem_cons.mp behind with point | behind
      · exact Or.inr point
      · exact Or.inl (List.mem_of_mem_drop behind)

/-- An exact decimal of at most `precision` digits, without zeros at its end. -/
inductive Decimal (precision : Nat) where
  | zero
  | nonzero (negative : Bool) (coefficient : Nat) (exponent : Int)
      (short : coefficient < 10 ^ precision) (normal : coefficient % 10 ≠ 0)
  deriving DecidableEq

namespace Decimal

variable {precision : Nat}

def signed (negative : Bool) (q : ℚ) : ℚ := if negative then -q else q

def value : Decimal precision → ℚ
  | zero => 0
  | nonzero negative coefficient exponent _ _ =>
    signed negative (coefficient * (10 : ℚ) ^ exponent)

/-- The exponent of the leading digit. -/
def leadingExponent (coefficient : Nat) (exponent : Int) : Int :=
  (Nat.toDigits 10 coefficient).length - 1 + exponent

/-- The stream prints an exponent. -/
def scientific : Decimal precision → Bool
  | zero => false
  | nonzero _ coefficient exponent _ _ =>
    leadingExponent coefficient exponent < -4 ∨ precision ≤ leadingExponent coefficient exponent

/-- The digits behind the point. -/
def places : Decimal precision → Nat
  | zero => 0
  | d@(nonzero _ coefficient exponent _ _) =>
    if d.scientific then (Nat.toDigits 10 coefficient).length - 1 else (-exponent).toNat

/-- The digits that are printed, with the zeros that plain notation fills in. -/
def digits : Decimal precision → List Char
  | zero => ['0']
  | d@(nonzero _ coefficient exponent _ _) =>
    let shown := Nat.toDigits 10 coefficient
    if d.scientific then shown
    else
      List.replicate ((-exponent).toNat + 1 - shown.length) '0' ++ shown ++
        List.replicate exponent.toNat '0'

def minus : Decimal precision → List Char
  | zero => []
  | nonzero negative _ _ _ _ => if negative then ['-'] else []

def mantissa (d : Decimal precision) : List Char := d.minus ++ pointed d.digits d.places

/-- The exponent has a sign and at least two digits. -/
def exponentText : Decimal precision → List Char
  | zero => []
  | d@(nonzero _ coefficient exponent _ _) =>
    if d.scientific then
      let leading := leadingExponent coefficient exponent
      let shown := Nat.toDigits 10 leading.natAbs
      'e' :: (if leading < 0 then '-' else '+') ::
        (if shown.length < 2 then '0' :: shown else shown)
    else []

/-- What a stream of this precision prints. -/
def text (d : Decimal precision) : List Char := d.mantissa ++ d.exponentText

/-- The number that the text before the exponent spells. -/
def scanned : Decimal precision → ℚ
  | zero => 0
  | d@(nonzero negative _ _ _ _) => signed negative (spelled d.digits / 10 ^ d.places)

theorem digits_isDigit (d : Decimal precision) : ∀ c ∈ d.digits, c.isDigit = true := by
  intro c listed
  cases d with
  | zero =>
    rw [digits, List.mem_singleton] at listed
    rw [listed]
    decide
  | nonzero negative coefficient exponent short normal =>
    simp only [digits] at listed
    split at listed
    · exact isDigit_of_mem listed
    · simp only [List.mem_append, List.mem_replicate] at listed
      rcases listed with (⟨-, rfl⟩ | listed) | ⟨-, rfl⟩
      · decide
      · exact isDigit_of_mem listed
      · decide

theorem places_lt (d : Decimal precision) : d.places < d.digits.length := by
  cases d with
  | zero => exact Nat.zero_lt_one
  | nonzero negative coefficient exponent short normal =>
    have shown : 0 < (Nat.toDigits 10 coefficient).length := Nat.length_toDigits_pos
    simp only [places, digits]
    split
    · omega
    · simp only [List.length_append, List.length_replicate]
      omega

/-- A reader that stops at the exponent reads the digits alone. -/
theorem read_mantissa (d : Decimal precision) : readDecimal d.mantissa = some d.scanned := by
  have unsigned := readUnsigned_pointed d.digits_isDigit d.places_lt
  have plain : (pointed d.digits d.places).head? ≠ some '-' := by
    intro first
    rcases mem_pointed (List.mem_of_mem_head? first) with listed | point
    · exact absurd (d.digits_isDigit _ listed) (by decide)
    · exact absurd point (by decide)
  cases d with
  | zero =>
    have nothing : (spelled (zero : Decimal precision).digits : ℚ) /
        10 ^ (zero : Decimal precision).places = 0 := by
      rw [digits, places, show spelled ['0'] = 0 from spelled_zeros 1]
      simp
    rw [nothing] at unsigned
    exact (readDecimal_plain plain).trans unsigned
  | nonzero negative coefficient exponent short normal =>
    cases negative with
    | false => exact (readDecimal_plain plain).trans unsigned
    | true =>
      show readDecimal ('-' :: pointed _ _) = _
      rw [readDecimal_minus, unsigned]
      rfl

theorem coefficient_pos {coefficient : Nat} (normal : coefficient % 10 ≠ 0) :
    (0 : ℚ) < coefficient := by
  have positive : 0 < coefficient := Nat.pos_of_ne_zero fun zero => normal (by rw [zero])
  exact_mod_cast positive

theorem signed_inj {negative : Bool} {a b : ℚ} : signed negative a = signed negative b ↔ a = b := by
  cases negative <;> simp [signed]

/-- Plain notation spells the number. -/
theorem plain_spelled (shown : Nat) (exponent : Int) (lead : Nat) :
    (spelled (List.replicate lead '0' ++ Nat.toDigits 10 shown ++
        List.replicate exponent.toNat '0') : ℚ) / 10 ^ (-exponent).toNat =
      shown * (10 : ℚ) ^ exponent := by
  rw [spelled_append, spelled_append, spelled_zeros, spelled_toDigits, spelled_zeros,
    List.length_replicate, Nat.mul_zero, Nat.zero_add, Nat.add_zero, Nat.cast_mul, Nat.cast_pow]
  rcases le_total 0 exponent with nonneg | nonpos
  · lift exponent to ℕ using nonneg
    simp [mul_comm]
  · obtain ⟨places, rfl⟩ := Int.exists_eq_neg_ofNat nonpos
    simp [zpow_neg, div_eq_mul_inv]

/-- The point behind the first digit moves the number by the leading exponent. -/
theorem scientific_spelled {shown : Nat} (normal : shown % 10 ≠ 0) (exponent : Int) :
    (shown : ℚ) / 10 ^ ((Nat.toDigits 10 shown).length - 1) = shown * (10 : ℚ) ^ exponent ↔
      leadingExponent shown exponent = 0 := by
  have size : 0 < (Nat.toDigits 10 shown).length := Nat.length_toDigits_pos
  have shifted : (shown : ℚ) / 10 ^ ((Nat.toDigits 10 shown).length - 1) =
      shown * (10 : ℚ) ^ (-((Nat.toDigits 10 shown).length - 1 : Int)) := by
    rw [div_eq_mul_inv, zpow_neg, ← zpow_natCast, Nat.cast_sub size, Nat.cast_one]
  rw [shifted, mul_right_inj' (coefficient_pos normal).ne',
    zpow_right_inj₀ (by norm_num) (by norm_num), leadingExponent]
  omega

/-- The digits alone are the number just where no exponent is printed. -/
theorem scanned_eq_iff (d : Decimal precision) : d.scanned = d.value ↔ d.scientific = false := by
  cases d with
  | zero => simp [scanned, value, scientific]
  | nonzero negative coefficient exponent short normal =>
    rw [scanned, value, signed_inj]
    by_cases apart : (nonzero negative coefficient exponent short normal).scientific = true
    · simp only [digits, places, apart, if_true, spelled_toDigits]
      rw [scientific_spelled normal]
      have positive : 0 < precision := by
        rcases Nat.eq_zero_or_pos precision with none_kept | some_kept
        · subst none_kept
          have absent : coefficient = 0 := by simpa using short
          exact absurd (by rw [absent]) normal
        · exact some_kept
      simp only [scientific, decide_eq_true_eq] at apart
      simp only [Bool.true_eq_false, iff_false]
      omega
    · rw [Bool.not_eq_true] at apart
      simp only [digits, places, apart, Bool.false_eq_true, if_false]
      exact iff_of_true (plain_spelled coefficient exponent _) trivial

end Decimal

end DecimalText
