import FeedHandler.Lib.BigEndian

/-! Unsigned little-endian numbers in byte strings, and their fields at fixed offsets of a
packed record. -/
namespace LittleEndian

/-- The number a byte string spells, least significant byte first. -/
def ofBytes (bytes : List UInt8) : Nat :=
  bytes.foldr (fun byte value => byte.toNat + 256 * value) 0

/-- The low `n` bytes of a number. -/
def toBytes : Nat → Nat → List UInt8
  | 0, _ => []
  | n + 1, x => UInt8.ofNat x :: toBytes n (x / 256)

/-- The number in the `width` bytes from `offset` on. -/
def readAt (bytes : List UInt8) (offset width : Nat) : Nat :=
  ofBytes ((bytes.drop offset).take width)

def word32 (x : UInt32) : List UInt8 := toBytes 4 x.toNat

def word64 (x : UInt64) : List UInt8 := toBytes 8 x.toNat

def word32At (bytes : List UInt8) (offset : Nat) : UInt32 := UInt32.ofNat (readAt bytes offset 4)

def word64At (bytes : List UInt8) (offset : Nat) : UInt64 := UInt64.ofNat (readAt bytes offset 8)

@[simp] theorem length_toBytes (n x : Nat) : (toBytes n x).length = n := by
  induction n generalizing x with
  | zero => rfl
  | succ n ih => simp [toBytes, ih]

@[simp] theorem length_word32 (x : UInt32) : (word32 x).length = 4 := length_toBytes 4 _

@[simp] theorem length_word64 (x : UInt64) : (word64 x).length = 8 := length_toBytes 8 _

theorem ofBytes_cons (byte : UInt8) (bytes : List UInt8) :
    ofBytes (byte :: bytes) = byte.toNat + 256 * ofBytes bytes := rfl

theorem ofBytes_toBytes (n x : Nat) : ofBytes (toBytes n x) = x % 256 ^ n := by
  induction n generalizing x with
  | zero => simp [toBytes, ofBytes, Nat.mod_one]
  | succ n ih =>
    have split : x % 256 ^ (n + 1) = x % 256 + 256 * (x / 256 % 256 ^ n) := by
      rw [Nat.pow_succ', Nat.mod_mul]
    rw [toBytes, ofBytes_cons, ih, split, UInt8.toNat_ofNat']

theorem ofBytes_lt (bytes : List UInt8) : ofBytes bytes < 256 ^ bytes.length := by
  induction bytes with
  | nil => decide
  | cons byte bytes ih =>
    have small := byte.toNat_lt
    rw [ofBytes_cons, List.length_cons, Nat.pow_succ']
    omega

theorem toBytes_ofBytes (bytes : List UInt8) : toBytes bytes.length (ofBytes bytes) = bytes := by
  induction bytes with
  | nil => rfl
  | cons byte bytes ih =>
    have small := byte.toNat_lt
    have high : (byte.toNat + 256 * ofBytes bytes) / 256 = ofBytes bytes := by omega
    have low : UInt8.ofNat (byte.toNat + 256 * ofBytes bytes) = byte := by
      apply UInt8.toNat_inj.mp
      rw [UInt8.toNat_ofNat']
      omega
    rw [List.length_cons, toBytes, ofBytes_cons, high, low, ih]

/-- Turned around, the bytes spell the big-endian number. -/
theorem ofBytes_reverse (bytes : List UInt8) : ofBytes bytes.reverse = BigEndian.ofBytes bytes := by
  have commuted : (fun (value : Nat) (byte : UInt8) => byte.toNat + 256 * value) =
      fun value byte => value * 256 + byte.toNat := by
    funext value byte
    rw [Nat.add_comm, Nat.mul_comm]
  rw [ofBytes, List.foldr_reverse, commuted, BigEndian.ofBytes]

section Fields

variable {rest bytes : List UInt8} {offset width : Nat}

/-- Reading behind the first field. -/
theorem readAt_append (behind : bytes.length ≤ offset) :
    readAt (bytes ++ rest) offset width = readAt rest (offset - bytes.length) width := by
  simp only [readAt]
  rw [BigEndian.drop_behind behind]

theorem readAt_here (x : Nat) : readAt (toBytes width x ++ rest) 0 width = x % 256 ^ width := by
  simp only [readAt]
  rw [List.drop_zero, List.take_append_of_le_length (by simp), List.take_of_length_le (by simp),
    ofBytes_toBytes]

theorem word32At_append (behind : bytes.length ≤ offset) :
    word32At (bytes ++ rest) offset = word32At rest (offset - bytes.length) := by
  simp only [word32At]
  rw [readAt_append behind]

theorem word64At_append (behind : bytes.length ≤ offset) :
    word64At (bytes ++ rest) offset = word64At rest (offset - bytes.length) := by
  simp only [word64At]
  rw [readAt_append behind]

theorem word32At_here (x : UInt32) : word32At (word32 x ++ rest) 0 = x := by
  simp only [word32At, word32]
  have small : x.toNat < 256 ^ 4 := x.toNat_lt
  rw [readAt_here, Nat.mod_eq_of_lt small, UInt32.ofNat_toNat]

theorem word64At_here (x : UInt64) : word64At (word64 x ++ rest) 0 = x := by
  simp only [word64At, word64]
  have small : x.toNat < 256 ^ 8 := x.toNat_lt
  rw [readAt_here, Nat.mod_eq_of_lt small, UInt64.ofNat_toNat]

/-- A word that nothing follows. -/
theorem word64At_word64 (x : UInt64) : word64At (word64 x) 0 = x := by
  have read : word64At (word64 x ++ []) 0 = x := word64At_here x
  rwa [List.append_nil] at read

theorem toBytes_readAt (inside : offset + width ≤ bytes.length) :
    toBytes width (readAt bytes offset width) = (bytes.drop offset).take width := by
  have size : ((bytes.drop offset).take width).length = width := by
    rw [List.length_take, List.length_drop]
    omega
  have read := toBytes_ofBytes ((bytes.drop offset).take width)
  rwa [size] at read

/-- A word read from a byte string spells the bytes it was read from. -/
theorem word64_word64At (inside : offset + 8 ≤ bytes.length) :
    bytes.drop offset = word64 (word64At bytes offset) ++ bytes.drop (offset + 8) := by
  have small : readAt bytes offset 8 < 2 ^ 64 := by
    have bound := ofBytes_lt ((bytes.drop offset).take 8)
    rwa [List.length_take_of_le (by rw [List.length_drop]; omega)] at bound
  rw [word64, word64At, UInt64.toNat_ofNat_of_lt' small, toBytes_readAt inside, ← List.drop_drop,
    List.take_append_drop]

theorem word32_word32At (inside : offset + 4 ≤ bytes.length) :
    bytes.drop offset = word32 (word32At bytes offset) ++ bytes.drop (offset + 4) := by
  have small : readAt bytes offset 4 < 2 ^ 32 := by
    have bound := ofBytes_lt ((bytes.drop offset).take 4)
    rwa [List.length_take_of_le (by rw [List.length_drop]; omega)] at bound
  rw [word32, word32At, UInt32.toNat_ofNat_of_lt' small, toBytes_readAt inside, ← List.drop_drop,
    List.take_append_drop]

end Fields

end LittleEndian
