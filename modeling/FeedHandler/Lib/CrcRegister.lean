import Mathlib.Tactic.Common

/-! The shift register of a reflected cyclic redundancy check. It is linear over bits and
loses nothing, so two bit strings that part in no more places than the register is wide
leave it in different states, whatever stands before and behind these places. -/
namespace CrcRegister

variable {w : Nat} {poly : BitVec w}

/-- One shift: the bit that falls out brings in the polynomial. -/
def step (poly c : BitVec w) : BitVec w := (c >>> 1) ^^^ (if c.getLsbD 0 then poly else 0)

def steps (poly : BitVec w) : Nat → BitVec w → BitVec w
  | 0, c => c
  | n + 1, c => steps poly n (step poly c)

def bitWord (bit : Bool) : BitVec w := BitVec.setWidth w (BitVec.ofBool bit)

/-- Bits are taken in one after the other. -/
def feed (poly : BitVec w) (c : BitVec w) (bits : List Bool) : BitVec w :=
  bits.foldl (fun c bit => step poly (c ^^^ bitWord bit)) c

/-- Bits as a word, the first one lowest. -/
def word : List Bool → BitVec w
  | [] => 0
  | bit :: rest => bitWord bit ^^^ (word rest <<< 1)

theorem step_xor (a b : BitVec w) : step poly (a ^^^ b) = step poly a ^^^ step poly b := by
  have cancel : ∀ x y : BitVec w, x ^^^ poly ^^^ (y ^^^ poly) = x ^^^ y := by
    intro x y
    rw [BitVec.xor_assoc, BitVec.xor_comm y, ← BitVec.xor_assoc poly, BitVec.xor_self,
      BitVec.zero_xor]
  simp only [step, BitVec.getLsbD_xor, BitVec.ushiftRight_xor_distrib]
  cases a.getLsbD 0 <;> cases b.getLsbD 0
  · simp
  · simp [BitVec.xor_assoc]
  · simp only [Bool.xor_false, if_true, Bool.false_eq_true, if_false, BitVec.ofNat_eq_ofNat,
      BitVec.xor_zero]
    rw [BitVec.xor_assoc, BitVec.xor_comm (b >>> 1), ← BitVec.xor_assoc]
  · simp [cancel]

theorem getLsbD_bitWord (bit : Bool) (i : Nat) :
    (bitWord bit : BitVec w).getLsbD i = (decide (i < w) && (decide (i = 0) && bit)) := by
  rw [bitWord, BitVec.getLsbD_setWidth, BitVec.getLsbD_ofBool]

theorem getLsbD_word (bits : List Bool) (i : Nat) :
    (word bits : BitVec w).getLsbD i = (decide (i < w) && bits.getD i false) := by
  induction bits generalizing i with
  | nil => simp [word]
  | cons bit rest ih =>
    cases i with
    | zero => simp [word, getLsbD_bitWord]
    | succ i =>
      rw [word, BitVec.getLsbD_xor, getLsbD_bitWord, BitVec.getLsbD_shiftLeft, Nat.add_sub_cancel,
        ih, List.getD_cons_succ]
      by_cases inside : i + 1 < w
      · simp [inside, show i < w by omega]
      · simp [inside]

/-- A word with a free place on top is shifted back. -/
theorem step_shiftLeft {c : BitVec w} (free : c.getLsbD (w - 1) = false) :
    step poly (c <<< 1) = c := by
  have even : (c <<< 1).getLsbD 0 = false := by simp
  simp only [step, even, Bool.false_eq_true, if_false, BitVec.ofNat_eq_ofNat, BitVec.xor_zero]
  apply BitVec.eq_of_getLsbD_eq
  intro i inside
  rw [BitVec.getLsbD_ushiftRight, BitVec.getLsbD_shiftLeft]
  by_cases top : i = w - 1
  · subst top
    simp [free, show ¬ 1 + (w - 1) < w by omega]
  · simp [show 1 + i < w by omega]

theorem step_word {bits : List Bool} (short : bits.length < w) :
    step poly (word bits <<< 1) = word bits := by
  apply step_shiftLeft
  rw [getLsbD_word, List.getD_eq_getElem?_getD, List.getElem?_eq_none (by omega)]
  simp

/-- As long as the register holds them all, bits may be taken in at once. -/
theorem feed_eq_steps {bits : List Bool} (short : bits.length ≤ w) (c : BitVec w) :
    feed poly c bits = steps poly bits.length (c ^^^ word bits) := by
  induction bits generalizing c with
  | nil => simp [feed, steps, word]
  | cons bit rest ih =>
    have room : rest.length < w := Nat.lt_of_succ_le short
    have following := ih (Nat.le_of_lt room) (step poly (c ^^^ bitWord bit))
    simp only [feed, List.foldl_cons] at following ⊢
    rw [following, List.length_cons, steps, word, ← BitVec.xor_assoc, step_xor _ (word rest <<< 1),
      step_word room]

theorem feed_append (c : BitVec w) (xs ys : List Bool) :
    feed poly c (xs ++ ys) = feed poly (feed poly c xs) ys := List.foldl_append

section Invertible

variable (top : poly.getLsbD (w - 1) = true)

include top

theorem step_eq_zero {c : BitVec w} (zero : step poly c = 0) : c = 0 := by
  have odd : c.getLsbD 0 = false := by
    have last := congrArg (·.getLsbD (w - 1)) zero
    by_contra set
    simp only [step, Bool.not_eq_false] at set last
    simp only [set, if_true, BitVec.getLsbD_xor, BitVec.getLsbD_ushiftRight, top] at last
    simp [BitVec.getLsbD_of_ge c (1 + (w - 1)) (by omega)] at last
  simp only [step, odd, Bool.false_eq_true, if_false, BitVec.ofNat_eq_ofNat, BitVec.xor_zero]
    at zero
  apply BitVec.eq_of_getLsbD_eq
  intro i _
  cases i with
  | zero => simp [odd]
  | succ i =>
    have bit := congrArg (·.getLsbD i) zero
    simpa [BitVec.getLsbD_ushiftRight, Nat.add_comm 1] using bit

theorem step_inj {a b : BitVec w} : step poly a = step poly b ↔ a = b := by
  constructor
  · intro same
    have zero : step poly (a ^^^ b) = 0 := by
      rw [step_xor, same, BitVec.xor_self]
      rfl
    exact BitVec.xor_eq_zero_iff.mp (step_eq_zero top zero)
  · rintro rfl
    rfl

theorem feed_inj {a b : BitVec w} (bits : List Bool) :
    feed poly a bits = feed poly b bits ↔ a = b := by
  induction bits generalizing a b with
  | nil => rfl
  | cons bit rest ih =>
    have following := ih (a := step poly (a ^^^ bitWord bit)) (b := step poly (b ^^^ bitWord bit))
    simp only [feed, List.foldl_cons] at following ⊢
    rw [following, step_inj top, BitVec.xor_left_inj]

theorem steps_inj {a b : BitVec w} (n : Nat) : steps poly n a = steps poly n b ↔ a = b := by
  induction n generalizing a b with
  | zero => rfl
  | succ n ih => rw [steps, steps, ih, step_inj top]

/-- Different bits that the register holds leave it in different states. -/
theorem feed_bits_inj {u v : List Bool} (long : u.length = v.length) (short : u.length ≤ w)
    (c : BitVec w) : feed poly c u = feed poly c v ↔ u = v := by
  constructor
  · intro same
    rw [feed_eq_steps short, feed_eq_steps (long ▸ short), long, steps_inj top,
      BitVec.xor_right_inj] at same
    apply List.ext_getElem long
    intro i inside within
    have bit := congrArg (·.getLsbD i) same
    simp only [getLsbD_word, show i < w by omega, decide_true, Bool.true_and,
      List.getD_eq_getElem?_getD, List.getElem?_eq_getElem inside,
      List.getElem?_eq_getElem within, Option.getD_some] at bit
    exact bit
  · rintro rfl
    rfl

/-- A burst no longer than the register is always seen. -/
theorem feed_burst {u v : List Bool} (long : u.length = v.length) (short : u.length ≤ w)
    (c : BitVec w) (pre post : List Bool) :
    feed poly c (pre ++ (u ++ post)) = feed poly c (pre ++ (v ++ post)) ↔ u = v := by
  rw [feed_append, feed_append, feed_append, feed_append, feed_inj top, feed_bits_inj top long short]

end Invertible

end CrcRegister
