import Mathlib.Data.List.Induction
import Mathlib.Tactic.Ring

/-! Unsigned big-endian numbers in byte strings, and fields at fixed offsets of a
packed record. -/
namespace BigEndian

/-- The number a byte string spells, most significant byte first. -/
def ofBytes (bytes : List UInt8) : Nat :=
  bytes.foldl (fun value byte => value * 256 + byte.toNat) 0

/-- The low `n` bytes of a number. -/
def toBytes : Nat → Nat → List UInt8
  | 0, _ => []
  | n + 1, x => toBytes n (x / 256) ++ [UInt8.ofNat x]

/-- The number in the `width` bytes from `offset` on. -/
def readAt (bytes : List UInt8) (offset width : Nat) : Nat :=
  ofBytes ((bytes.drop offset).take width)

/-- The `n` bytes from `offset` on. -/
def sliceAt (bytes : List UInt8) (offset n : Nat) : Vector UInt8 n :=
  Vector.ofFn fun i => (bytes.drop offset).getD i 0

@[simp] theorem length_toBytes (n x : Nat) : (toBytes n x).length = n := by
  induction n generalizing x with
  | zero => rfl
  | succ n ih => simp [toBytes, ih]

theorem ofBytes_append_singleton (bytes : List UInt8) (byte : UInt8) :
    ofBytes (bytes ++ [byte]) = ofBytes bytes * 256 + byte.toNat := by
  simp [ofBytes]

theorem ofBytes_toBytes (n x : Nat) : ofBytes (toBytes n x) = x % 256 ^ n := by
  induction n generalizing x with
  | zero => simp [toBytes, ofBytes, Nat.mod_one]
  | succ n ih =>
    have split : x % 256 ^ (n + 1) = x % 256 + 256 * (x / 256 % 256 ^ n) := by
      rw [Nat.pow_succ', Nat.mod_mul]
    rw [toBytes, ofBytes_append_singleton, ih, split, UInt8.toNat_ofNat']
    ring

theorem toBytes_ofBytes (bytes : List UInt8) : toBytes bytes.length (ofBytes bytes) = bytes := by
  induction bytes using List.reverseRecOn with
  | nil => rfl
  | append_singleton front byte ih =>
    have high : (ofBytes front * 256 + byte.toNat) / 256 = ofBytes front := by
      have small := byte.toNat_lt
      omega
    have low : UInt8.ofNat (ofBytes front * 256 + byte.toNat) = byte := by
      apply UInt8.toNat_inj.mp
      have small := byte.toNat_lt
      rw [UInt8.toNat_ofNat']
      omega
    rw [List.length_append, List.length_singleton, toBytes, ofBytes_append_singleton, high, low, ih]

theorem ofBytes_lt (bytes : List UInt8) : ofBytes bytes < 256 ^ bytes.length := by
  have spelled := ofBytes_toBytes bytes.length (ofBytes bytes)
  rw [toBytes_ofBytes] at spelled
  exact spelled ▸ Nat.mod_lt _ (Nat.pow_pos (by decide))

/-- Byte strings of one length that spell the same number are the same. -/
theorem eq_of_ofBytes_eq {xs ys : List UInt8} (long : xs.length = ys.length)
    (same : ofBytes xs = ofBytes ys) : xs = ys := by
  rw [← toBytes_ofBytes xs, ← toBytes_ofBytes ys, long, same]

section Fields

variable {rest bytes : List UInt8} {offset width n : Nat}

theorem drop_behind (behind : bytes.length ≤ offset) :
    (bytes ++ rest).drop offset = rest.drop (offset - bytes.length) := by
  rw [List.drop_append, List.drop_of_length_le behind, List.nil_append]

/-- Reading behind the first field. -/
theorem readAt_append (behind : bytes.length ≤ offset) :
    readAt (bytes ++ rest) offset width = readAt rest (offset - bytes.length) width := by
  simp only [readAt]
  rw [drop_behind behind]

theorem readAt_here (x : Nat) : readAt (toBytes width x ++ rest) 0 width = x % 256 ^ width := by
  simp only [readAt]
  rw [List.drop_zero, List.take_append_of_le_length (by simp), List.take_of_length_le (by simp),
    ofBytes_toBytes]

theorem sliceAt_append (behind : bytes.length ≤ offset) :
    sliceAt (bytes ++ rest) offset n = sliceAt rest (offset - bytes.length) n := by
  simp only [sliceAt]
  rw [drop_behind behind]

theorem sliceAt_here (value : Vector UInt8 n) : sliceAt (value.toList ++ rest) 0 n = value := by
  ext i inside
  have within : i < value.toList.length := by simpa using inside
  simp [sliceAt, List.getElem?_append_left within, inside]

theorem getD_append (behind : bytes.length ≤ offset) :
    (bytes ++ rest).getD offset 0 = rest.getD (offset - bytes.length) 0 := by
  simp only [List.getD_eq_getElem?_getD, List.getElem?_append_right behind]

theorem getD_here (byte : UInt8) : ([byte] ++ rest).getD 0 0 = byte := rfl

end Fields

end BigEndian
