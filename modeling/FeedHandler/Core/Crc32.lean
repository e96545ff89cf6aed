import FeedHandler.Core.Types
import FeedHandler.Lib.CrcRegister

/-! The determinism witness: the bitwise CRC-32 of the source and its fold over
the fields of an event. Multi-byte fields are read from memory, so they enter
least significant byte first on the little-endian targets of the build.

What the checksum tells apart: the loops of the source shift a linear register, so equal
seeds and strings that differ within 32 consecutive bits never share a checksum, and what
follows a difference does not undo it. -/
namespace FeedHandler

/-- One bit of the reflected CRC-32 register. -/
def crc32Bit (crc : UInt32) : UInt32 :=
  let mask : UInt32 := 0 - (crc &&& 1)
  (crc >>> 1) ^^^ (0xEDB88320 &&& mask)

def crc32Byte (crc : UInt32) (byte : UInt8) : UInt32 :=
  (List.range 8).foldl (fun crc _ => crc32Bit crc) (crc ^^^ byte.toUInt32)

def crc32Update (seed : UInt32) (data : List UInt8) : UInt32 :=
  ~~~ (data.foldl crc32Byte (~~~ seed))

/-- The `width` bytes of a machine word in memory order. -/
def memoryBytes (width : Nat) (value : Nat) : List UInt8 :=
  (List.range width).map (fun i => (value >>> (8 * i)).toUInt8)

def updateCrcFromBookEvent (crc : UInt32) (ev : BookEvent) : UInt32 :=
  let crc := crc32Update crc [ev.venue.code]
  let crc := crc32Update crc [ev.type.code]
  let crc := crc32Update crc (memoryBytes 8 ev.sequence.toNat)
  let crc := crc32Update crc (memoryBytes 8 ev.exchangeTsNs.toNat)
  let crc := crc32Update crc ev.symbol.bytes.toList
  let crc := crc32Update crc (memoryBytes 8 ev.orderId.toNat)
  let crc := crc32Update crc (memoryBytes 4 ev.qty.toNat)
  crc32Update crc (memoryBytes 4 ev.price.toNat)

example : crc32Update 0 [0x31, 0x32, 0x33, 0x34, 0x35, 0x36, 0x37, 0x38, 0x39] = 0xCBF43926 := by
  decide +kernel

open CrcRegister

def crc32Polynomial : BitVec 32 := 0xEDB88320

theorem crc32Polynomial_top : crc32Polynomial.getLsbD (32 - 1) = true := by decide

theorem crc32Bit_toBitVec (crc : UInt32) :
    (crc32Bit crc).toBitVec = step crc32Polynomial crc.toBitVec := by
  have low := BitVec.and_one_eq_setWidth_ofBool_getLsbD (x := crc.toBitVec)
  have mask : (0 - (crc &&& 1) : UInt32).toBitVec =
      if crc.toBitVec.getLsbD 0 then BitVec.allOnes 32 else 0 := by
    rw [UInt32.toBitVec_sub, UInt32.toBitVec_and, show (1 : UInt32).toBitVec = 1#32 from rfl, low]
    cases crc.toBitVec.getLsbD 0 <;> decide
  simp only [crc32Bit, UInt32.toBitVec_xor, UInt32.toBitVec_shiftRight, UInt32.toBitVec_and, mask,
    step]
  cases crc.toBitVec.getLsbD 0
  · simp
  · simp [crc32Polynomial]

/-- The bits of a byte in the order in which the register takes them in. -/
def byteBits (byte : UInt8) : List Bool := (List.range 8).map byte.toBitVec.getLsbD

def dataBits (data : List UInt8) : List Bool := data.flatMap byteBits

@[simp] theorem length_byteBits (byte : UInt8) : (byteBits byte).length = 8 := by
  simp [byteBits]

@[simp] theorem length_dataBits (data : List UInt8) :
    (dataBits data).length = 8 * data.length := by
  induction data with
  | nil => rfl
  | cons byte rest ih =>
    simp only [dataBits, List.flatMap_cons, List.length_append, length_byteBits,
      List.length_cons] at ih ⊢
    omega

theorem dataBits_append (xs ys : List UInt8) :
    dataBits (xs ++ ys) = dataBits xs ++ dataBits ys := List.flatMap_append

theorem word_byteBits (byte : UInt8) : word (byteBits byte) = byte.toUInt32.toBitVec := by
  apply BitVec.eq_of_getLsbD_eq
  intro i inside
  rw [getLsbD_word, UInt8.toBitVec_toUInt32, BitVec.getLsbD_setWidth]
  by_cases low : i < 8
  · simp [byteBits, inside, low]
  · simp [byteBits, inside, low, BitVec.getLsbD_of_ge byte.toBitVec i (by omega)]

theorem byteBits_inj {a b : UInt8} : byteBits a = byteBits b ↔ a = b := by
  constructor
  · intro same
    apply UInt8.toBitVec_inj.mp
    apply BitVec.eq_of_getLsbD_eq
    intro i inside
    have bit := congrArg (·.getD i false) same
    simpa [byteBits, inside] using bit
  · rintro rfl
    rfl

theorem dataBits_inj {xs ys : List UInt8} : dataBits xs = dataBits ys ↔ xs = ys := by
  constructor
  · intro same
    induction xs generalizing ys with
    | nil =>
      have size := congrArg List.length same
      exact (List.length_eq_zero_iff.mp (by simpa using size.symm)).symm
    | cons x xs ih =>
      cases ys with
      | nil =>
        have size := congrArg List.length same
        simp at size
      | cons y ys =>
        simp only [dataBits, List.flatMap_cons] at same
        obtain ⟨first, others⟩ := List.append_inj same (by simp)
        rw [byteBits_inj.mp first, ih others]
  · rintro rfl
    rfl

theorem crc32Byte_toBitVec (crc : UInt32) (byte : UInt8) :
    (crc32Byte crc byte).toBitVec = feed crc32Polynomial crc.toBitVec (byteBits byte) := by
  rw [feed_eq_steps (by simp), word_byteBits, ← UInt32.toBitVec_xor, length_byteBits]
  simp only [crc32Byte, List.range, List.range.loop, List.foldl_cons, List.foldl_nil, steps,
    crc32Bit_toBitVec]

theorem crc32Fold_toBitVec (crc : UInt32) (data : List UInt8) :
    (data.foldl crc32Byte crc).toBitVec = feed crc32Polynomial crc.toBitVec (dataBits data) := by
  induction data generalizing crc with
  | nil => rfl
  | cons byte rest ih =>
    simp only [List.foldl_cons, ih, crc32Byte_toBitVec, dataBits, List.flatMap_cons, feed_append]

theorem crc32Update_inj {a b : UInt32} {x y : List UInt8} :
    crc32Update a x = crc32Update b y ↔
      feed crc32Polynomial (~~~ a).toBitVec (dataBits x) =
        feed crc32Polynomial (~~~ b).toBitVec (dataBits y) := by
  rw [crc32Update, crc32Update, UInt32.not_inj, ← crc32Fold_toBitVec, ← crc32Fold_toBitVec,
    UInt32.toBitVec_inj]

/-- Updating by two strings in turn is updating by both in one. -/
theorem crc32Update_append (seed : UInt32) (xs ys : List UInt8) :
    crc32Update seed (xs ++ ys) = crc32Update (crc32Update seed xs) ys := by
  rw [crc32Update, crc32Update, crc32Update, UInt32.not_not, List.foldl_append]

/-- The strings differ within at most 32 consecutive bits. -/
def Burst (x y : List UInt8) : Prop :=
  ∃ pre u v post, dataBits x = pre ++ (u ++ post) ∧ dataBits y = pre ++ (v ++ post) ∧
    u.length = v.length ∧ u.length ≤ 32

/-- No burst escapes the checksum. -/
theorem crc32Update_burst {x y : List UInt8} (burst : Burst x y) (seed : UInt32) :
    crc32Update seed x = crc32Update seed y ↔ x = y := by
  obtain ⟨pre, u, v, post, before, after, long, short⟩ := burst
  rw [crc32Update_inj, ← dataBits_inj, before, after, feed_burst crc32Polynomial_top long short,
    List.append_cancel_left_eq, List.append_cancel_right_eq]

/-- Four bytes in one place of a string are a burst. -/
theorem burst_of_bytes {u v : List UInt8} (long : u.length = v.length) (short : u.length ≤ 4)
    (pre post : List UInt8) : Burst (pre ++ (u ++ post)) (pre ++ (v ++ post)) := by
  refine ⟨dataBits pre, dataBits u, dataBits v, dataBits post, ?_, ?_, ?_, ?_⟩
  · simp only [dataBits_append]
  · simp only [dataBits_append]
  · simp [long]
  · rw [length_dataBits]
    omega

/-- The bits in which the strings differ lie among 32 consecutive ones. -/
def Confined (x y : List UInt8) : Prop :=
  ∃ start, ∀ i, (dataBits x)[i]? ≠ (dataBits y)[i]? → start ≤ i ∧ i < start + 32

theorem confined_iff {x y : List UInt8} (long : x.length = y.length) :
    Confined x y ↔ Burst x y := by
  have size : (dataBits x).length = (dataBits y).length := by simp [long]
  constructor
  · rintro ⟨start, confined⟩
    have before : (dataBits x).take start = (dataBits y).take start := by
      apply List.ext_getElem?
      intro i
      by_cases early : i < start
      · rw [List.getElem?_take_of_lt early, List.getElem?_take_of_lt early]
        by_contra differ
        exact absurd (confined i differ).1 (by omega)
      · rw [List.getElem?_take_eq_none (by omega), List.getElem?_take_eq_none (by omega)]
    have after : (dataBits x).drop (start + 32) = (dataBits y).drop (start + 32) := by
      apply List.ext_getElem?
      intro i
      rw [List.getElem?_drop, List.getElem?_drop]
      by_contra differ
      exact absurd (confined _ differ).2 (by omega)
    refine ⟨(dataBits x).take start, ((dataBits x).drop start).take 32,
      ((dataBits y).drop start).take 32, (dataBits x).drop (start + 32), ?_, ?_, ?_, ?_⟩
    · rw [← List.drop_drop, List.take_append_drop, List.take_append_drop]
    · rw [before, after, ← List.drop_drop, List.take_append_drop, List.take_append_drop]
    · simp [long]
    · exact List.length_take_le _ _
  · rintro ⟨pre, u, v, post, left, right, same, short⟩
    refine ⟨pre.length, fun i differ => ?_⟩
    rw [left, right] at differ
    constructor
    · by_contra early
      rw [List.getElem?_append_left (by omega), List.getElem?_append_left (by omega)] at differ
      exact differ rfl
    · by_contra late
      rw [List.getElem?_append_right (by omega), List.getElem?_append_right (by omega),
        List.getElem?_append_right (by omega), List.getElem?_append_right (by omega), same]
        at differ
      exact differ rfl

/-- The checksum of a string is that of its parts in turn, and of two strings of one length it
tells apart any that differ within 32 consecutive bits. -/
theorem crc32Update_laws :
    (∀ seed a b, crc32Update (crc32Update seed a) b = crc32Update seed (a ++ b)) ∧
      ∀ seed x y, x.length = y.length → x ≠ y → Confined x y →
        crc32Update seed x ≠ crc32Update seed y := by
  constructor
  · intro seed a b
    exact (crc32Update_append seed a b).symm
  · intro seed x y long differ confined
    exact mt (crc32Update_burst ((confined_iff long).mp confined) seed).mp differ

theorem crc32Update_laws_bytes :
    crc32Update (crc32Update 7 [0x31]) [0x32] = crc32Update 7 [0x31, 0x32] ∧
      crc32Update 7 [0x31, 0x32, 0x33] ≠ crc32Update 7 [0x31, 0x35, 0x33] := by
  have burst : Burst [0x31, 0x32, 0x33] [0x31, 0x35, 0x33] :=
    burst_of_bytes (show [0x32].length = [0x35].length from rfl) (by decide) [0x31] [0x33]
  exact ⟨crc32Update_laws.1 7 [0x31] [0x32], crc32Update_laws.2 7 [0x31, 0x32, 0x33]
    [0x31, 0x35, 0x33] rfl (by decide) ((confined_iff (by decide)).mpr burst)⟩

end FeedHandler
