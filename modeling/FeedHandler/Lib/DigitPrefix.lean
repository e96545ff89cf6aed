import Mathlib.Data.Nat.Digits.Lemmas

/-! Numerals cut to a fixed width. Keeping the first digits of a numeral is dividing by a
power of the base, so what is kept names a smaller number once the width is exceeded. -/
namespace DigitPrefix

/-- The number that the first `room` digits of `n` spell. -/
def leading (base room n : Nat) : Nat := n / base ^ ((Nat.digits base n).length - room)

section Prefix

variable {base room n : Nat}

theorem digits_div_pow (oneLt : 1 < base) (n i : Nat) :
    Nat.digits base (n / base ^ i) = (Nat.digits base n).drop i := by
  induction i generalizing n with
  | zero => simp
  | succ i ih =>
    rw [Nat.pow_succ', ← Nat.div_div_eq_div_mul, ih]
    cases n with
    | zero => simp
    | succ n => rw [Nat.digits_def' oneLt n.succ_pos, List.drop_succ_cons]

/-- The first digits of a numeral, most significant digit first, are those of `leading`. -/
theorem take_numeral (oneLt : 1 < base) (room n : Nat) :
    (Nat.digits base n).reverse.take room = (Nat.digits base (leading base room n)).reverse := by
  rw [leading, digits_div_pow oneLt, List.take_reverse]

theorem leading_lt (oneLt : 1 < base) (room n : Nat) : leading base room n < base ^ room := by
  rw [← Nat.digits_length_le_iff oneLt, leading, digits_div_pow oneLt, List.length_drop]
  omega

/-- A number that fits is kept whole. -/
theorem leading_of_lt (oneLt : 1 < base) (fits : n < base ^ room) : leading base room n = n := by
  have short := (Nat.digits_length_le_iff oneLt n).mpr fits
  rw [leading, Nat.sub_eq_zero_of_le short, Nat.pow_zero, Nat.div_one]

/-- What is kept of a number that fills the room fills it again. -/
theorem le_leading (oneLt : 1 < base) (fills : base ^ room ≤ n) :
    base ^ room ≤ leading base (room + 1) n := by
  have long := (Nat.lt_digits_length_iff oneLt n).mpr fills
  rw [← Nat.lt_digits_length_iff oneLt, leading, digits_div_pow oneLt, List.length_drop]
  omega

theorem leading_pos (oneLt : 1 < base) (pos : 0 < n) : 0 < leading base (room + 1) n := by
  by_cases fits : n < base ^ (room + 1)
  · rwa [leading_of_lt oneLt fits]
  · have fills : base ^ room ≤ n :=
      (Nat.pow_le_pow_right (by omega) (Nat.le_succ room)).trans (Nat.le_of_not_lt fits)
    exact (Nat.pow_pos (by omega)).trans_le (le_leading oneLt fills)

/-- A further digit behind a number that fills the room is cut off. -/
theorem leading_mul (oneLt : 1 < base) (fills : base ^ room ≤ n) (fits : n < base ^ (room + 1)) :
    leading base (room + 1) (base * n) = n := by
  have positive : 0 < n := (Nat.pow_pos (by omega)).trans_le fills
  have short := (Nat.digits_length_le_iff oneLt n).mpr fits
  have long := (Nat.lt_digits_length_iff oneLt n).mpr fills
  have grown : (Nat.digits base (base * n)).length = (Nat.digits base n).length + 1 := by
    have shifted := Nat.digits_base_pow_mul (k := 1) oneLt positive
    rw [Nat.pow_one] at shifted
    rw [shifted, List.length_append, List.length_replicate, Nat.add_comm]
  have beyond : (Nat.digits base n).length + 1 - (room + 1) = 1 := by omega
  rw [leading, grown, beyond, Nat.pow_one, Nat.mul_div_cancel_left n (by omega)]

/-- Only numbers below `base ^ room` share what is kept with no other number. -/
theorem eq_of_leading_eq (oneLt : 1 < base) {m : Nat} (fits : n < base ^ room)
    (same : leading base (room + 1) m = leading base (room + 1) n) : m = n := by
  have grows : base ^ room ≤ base ^ (room + 1) := Nat.pow_le_pow_right (by omega) (Nat.le_succ room)
  rw [leading_of_lt oneLt (fits.trans_le grows)] at same
  by_cases small : m < base ^ room
  · rwa [leading_of_lt oneLt (small.trans_le grows)] at same
  · have large := le_leading oneLt (Nat.le_of_not_lt small)
    omega

end Prefix

end DigitPrefix
