import FeedHandler.Proto.IexDeep
import FeedHandler.Wire.FrameSequences

/-! How the parsers store wire fields that are wider than 32 bits. The IEX and the Cboe
parser saturate; the Nasdaq parser cuts the share counts of crosses and imbalances, so a
count from `2 ^ 32` on is stored as a smaller one. -/
namespace FeedHandler

/-- The 32-bit fields of an event that quantities and prices go to. -/
inductive BookField where
  | qty | price
  deriving DecidableEq, Repr

def BookEvent.stored (ev : BookEvent) : BookField → UInt32
  | .qty => ev.qty
  | .price => ev.price

/-- The largest value that is stored. -/
def storedLimit : Nat := 2 ^ 32 - 1

/-- The event has every wide field of its message, or the limit in its place. -/
def Saturates (fields : List (BookField × Nat)) (ev : BookEvent) : Prop :=
  ∀ field ∈ fields, (ev.stored field.1).toNat = min field.2 storedLimit

theorem toNat_saturated (v : Nat) :
    (UInt32.ofNat (min v storedLimit)).toNat = min v storedLimit := by
  have small : min v storedLimit < 2 ^ 32 := by
    have limit : storedLimit = 2 ^ 32 - 1 := rfl
    omega
  exact Nat.mod_eq_of_lt small

/-- Cutting to 32 bits agrees with saturation below `2 ^ 32`, and where the low bits are
all set. -/
theorem mod_eq_min_iff (v : Nat) :
    v % 2 ^ 32 = min v storedLimit ↔ v < 2 ^ 32 ∨ v % 2 ^ 32 = storedLimit := by
  have limit : storedLimit = 2 ^ 32 - 1 := rfl
  omega

namespace Itch50
open BigEndian

/-- The share counts of eight bytes that a message stores as its quantity. -/
def wideFields : List UInt8 → List (BookField × Nat)
  | [] => []
  | type :: m =>
    if type = 'Q'.toUInt8 then [(.qty, readAt m 10 8)]
    else if type = 'I'.toUInt8 then [(.qty, readAt m 18 8)]
    else []

/-- The counts fit 32 bits, or their low 32 bits are all set. -/
def CountsFit (payload : List UInt8) : Prop :=
  ∀ field ∈ wideFields payload, field.2 < 2 ^ 32 ∨ field.2 % 2 ^ 32 = storedLimit

theorem readU64_cut (m : List UInt8) (offset : Nat) :
    (readU64 m offset).toUInt32.toNat = readAt m offset 8 % 2 ^ 32 := by
  have bytes : ((m.drop offset).take 8).length ≤ 8 := by simp
  have small : readAt m offset 8 < 2 ^ 64 :=
    (ofBytes_lt _).trans_le (Nat.pow_le_pow_right (by decide : 0 < 256) bytes)
  rw [readU64, UInt64.toNat_toUInt32, UInt64.toNat_ofNat_of_lt' small]

/-- The quantity of a cross or an imbalance is the low half of its count. -/
theorem decode_cuts (ev : BookEvent) (type : UInt8) (m : List UInt8) :
    ∀ field ∈ wideFields (type :: m),
      ((decode ev type m).stored field.1).toNat = field.2 % 2 ^ 32 := by
  simp only [wideFields]
  split
  · next cross =>
    subst cross
    simp +decide only [List.mem_singleton, forall_eq, decode, BookEvent.stored, if_true, if_false,
      readU64_cut]
  · split
    · next imbalance =>
      subst imbalance
      simp +decide only [List.mem_singleton, forall_eq, decode, BookEvent.stored, if_true,
        if_false, readU64_cut]
    · exact fun _ none => absurd none List.not_mem_nil

theorem parseMessage_saturates_iff {payload : List UInt8} {sequence ingestTsNs : UInt64}
    {stats : ParseStats} {ev : BookEvent}
    (parsed : (parseMessage payload sequence ingestTsNs stats).1 = some ev) :
    Saturates (wideFields payload) ev ↔ CountsFit payload := by
  cases payload with
  | nil => cases parsed
  | cons type m =>
    simp only [parseMessage] at parsed
    split at parsed
    · cases parsed
    · cases parsed
      refine forall₂_congr fun field listed => ?_
      rw [decode_cuts _ type m field listed]
      exact mod_eq_min_iff field.2

end Itch50

namespace IexDeep

/-- The prices of eight bytes. -/
def wideFields : List UInt8 → List (BookField × Nat)
  | [] => []
  | type :: m =>
    if type = 'a'.toUInt8 ∨ type = 'M'.toUInt8 ∨ type = 'L'.toUInt8 then
      [(.price, LittleEndian.readAt (type :: m) 30 8)]
    else if type = 'T'.toUInt8 then [(.price, LittleEndian.readAt (type :: m) 22 8)]
    else []

theorem narrow_readU64 (m : List UInt8) (offset : Nat) :
    (narrowU64ToU32 (readU64 m offset)).toNat =
      min (LittleEndian.readAt m offset 8) storedLimit := by
  have bytes : ((m.drop offset).take 8).length ≤ 8 := by simp
  have small : LittleEndian.readAt m offset 8 < 2 ^ 64 :=
    (LittleEndian.ofBytes_lt _).trans_le (Nat.pow_le_pow_right (by decide : 0 < 256) bytes)
  rw [narrowU64ToU32, readU64, UInt64.toNat_ofNat_of_lt' small]
  exact toNat_saturated _

theorem decode_saturates (ev : BookEvent) (type : UInt8) (m : List UInt8) :
    Saturates (wideFields (type :: m)) (decode ev type (type :: m)) := by
  simp only [wideFields]
  split
  · next listed =>
    rcases listed with rfl | rfl | rfl <;>
      simp +decide only [Saturates, List.mem_singleton, forall_eq, decode, BookEvent.stored,
        if_true, if_false, narrow_readU64]
  · split
    · next trade =>
      subst trade
      simp +decide only [Saturates, List.mem_singleton, forall_eq, decode, BookEvent.stored,
        if_true, if_false, narrow_readU64]
    · exact fun _ none => absurd none List.not_mem_nil

theorem parseMessage_saturates {payload : List UInt8} {sequence ingestTsNs : UInt64}
    {stats : ParseStats} {ev : BookEvent}
    (parsed : (parseMessage payload sequence ingestTsNs stats).1 = some ev) :
    Saturates (wideFields payload) ev := by
  cases payload with
  | nil => cases parsed
  | cons type m =>
    simp only [parseMessage] at parsed
    split at parsed
    · cases parsed
      exact decode_saturates _ type m
    · split at parsed
      · cases parsed
      · cases parsed
        exact decode_saturates _ type m

end IexDeep

namespace CboePitch

/-- A field of decimal digits: where it goes, its offset and width, and the unit it is
divided by. -/
structure DecimalField where
  target : BookField
  offset : Nat
  width : Nat
  unit : Nat := 1

/-- The decimal fields of each type that become the quantity and the price. -/
def decimalFields (type : UInt8) : List DecimalField :=
  if type = 'A'.toUInt8 then [⟨.qty, 22, 6, 1⟩, ⟨.price, 34, 10, 1⟩]
  else if type = 'd'.toUInt8 then [⟨.qty, 22, 6, 1⟩, ⟨.price, 36, 10, 1⟩]
  else if type = '1'.toUInt8 then [⟨.qty, 22, 6, 1⟩, ⟨.price, 36, 14, 100⟩]
  else if type = 'E'.toUInt8 then [⟨.qty, 21, 6, 1⟩]
  else if type = 'X'.toUInt8 then [⟨.qty, 21, 6, 1⟩]
  else if type = 'P'.toUInt8 then [⟨.qty, 22, 6, 1⟩, ⟨.price, 34, 10, 1⟩]
  else if type = 'r'.toUInt8 then [⟨.qty, 22, 6, 1⟩, ⟨.price, 36, 10, 1⟩]
  else if type = '2'.toUInt8 then [⟨.qty, 22, 6, 1⟩, ⟨.price, 36, 14, 100⟩]
  else []

/-- The number a decimal field spells, in the unit of the event. -/
def DecimalField.value (f : DecimalField) (m : List UInt8) : Nat :=
  decimalFrom 0 (field m f.offset f.width) / f.unit

def wideFields (m : List UInt8) : List (BookField × Nat) :=
  (decimalFields (m.getD 8 0)).map fun f => (f.target, f.value m)

/-- The quantity and the price of the line are digits. -/
def DigitsOnly (m : List UInt8) : Prop :=
  ∀ f ∈ decimalFields (m.getD 8 0), (field m f.offset f.width).all isDigit = true

/-- Digits append to less than the next power of ten. -/
theorem decimalFrom_lt (value : Nat) (chars : List UInt8) (digits : chars.all isDigit = true) :
    decimalFrom value chars < (value + 1) * 10 ^ chars.length := by
  induction chars generalizing value with
  | nil => simp [decimalFrom]
  | cons c rest ih =>
    rw [List.all_cons, Bool.and_eq_true] at digits
    have bounds := digits.1
    simp only [isDigit, Bool.and_eq_true, decide_eq_true_eq, UInt8.le_iff_toNat_le] at bounds
    have top : ('9'.toUInt8).toNat = '0'.toNat + 9 := by decide
    have next := ih (value * 10 + (c.toNat - '0'.toNat)) digits.2
    have step : (value * 10 + (c.toNat - '0'.toNat) + 1) * 10 ^ rest.length ≤
        ((value + 1) * 10) * 10 ^ rest.length := Nat.mul_le_mul_right _ (by omega)
    rw [List.length_cons, Nat.pow_succ', ← Nat.mul_assoc]
    exact next.trans_le step

theorem readU64_toNat {m : List UInt8} {offset width : Nat} (short : width ≤ 18)
    (digits : (field m offset width).all isDigit = true) :
    (readU64 m offset width).toNat = decimalFrom 0 (field m offset width) ∧
      decimalFrom 0 (field m offset width) < 10 ^ width := by
  have length : (field m offset width).length ≤ width := by simp [field]
  have power : 10 ^ (field m offset width).length ≤ 10 ^ width :=
    Nat.pow_le_pow_right (by decide) length
  have room : (10 : Nat) ^ width ≤ 10 ^ 18 := Nat.pow_le_pow_right (by decide) short
  have bound := decimalFrom_lt 0 _ digits
  rw [Nat.zero_add, Nat.one_mul] at bound
  refine ⟨?_, bound.trans_le power⟩
  rw [readU64, parseAsciiU64, parseAsciiFrom_toNat 0 _ (by
    rw [UInt64.toNat_zero, Nat.zero_add, Nat.one_mul]
    exact (power.trans room).trans (by decide)), if_pos digits]
  rfl

/-- Six digits of shares fit. -/
theorem readShares_saturates {m : List UInt8} {offset : Nat}
    (digits : (field m offset 6).all isDigit = true) :
    (readShares m offset).toNat = min (decimalFrom 0 (field m offset 6) / 1) storedLimit := by
  obtain ⟨value, small⟩ := readU64_toNat (by decide) digits
  have limit : storedLimit = 4294967295 := rfl
  rw [readShares, UInt64.toNat_toUInt32, value]
  omega

theorem parsePrice4dp_saturates {m : List UInt8} {offset : Nat}
    (digits : (field m offset 10).all isDigit = true) :
    (parsePrice4dp m offset).toNat = min (decimalFrom 0 (field m offset 10) / 1) storedLimit := by
  rw [parsePrice4dp, saturate, (readU64_toNat (by decide) digits).1, Nat.div_one]
  exact toNat_saturated _

theorem parseLongPrice_saturates {m : List UInt8} {offset : Nat}
    (digits : (field m offset 14).all isDigit = true) :
    (parseLongPrice6dpTo4dp m offset).toNat =
      min (decimalFrom 0 (field m offset 14) / 100) storedLimit := by
  rw [parseLongPrice6dpTo4dp, saturate, UInt64.toNat_div,
    (readU64_toNat (by decide) digits).1, show (100 : UInt64).toNat = 100 from rfl]
  exact toNat_saturated _

/-- What a record stores for one of its decimal fields. -/
def DecimalField.narrowed (f : DecimalField) (m : List UInt8) : UInt32 :=
  match f.width with
  | 6 => readShares m f.offset
  | 10 => parsePrice4dp m f.offset
  | _ => parseLongPrice6dpTo4dp m f.offset

theorem decode_narrows (ev : BookEvent) (type : UInt8) (m : List UInt8) :
    ∀ f ∈ decimalFields type, (decode ev type m).stored f.target = f.narrowed m := by
  intro f member
  simp only [decimalFields] at member
  repeat' split at member
  case isFalse.isFalse.isFalse.isFalse.isFalse.isFalse.isFalse.isFalse => cases member
  all_goals
    rename type = _ => here
    subst here
    simp only [List.mem_cons, List.not_mem_nil, or_false] at member
    rcases member with rfl | rfl <;>
      simp +decide only [decode, if_true, if_false, BookEvent.stored, DecimalField.narrowed]

/-- The widths and units of the decimal fields go together. -/
theorem decimalFields_shape (type : UInt8) : ∀ f ∈ decimalFields type,
    (f.width = 6 ∧ f.unit = 1) ∨ (f.width = 10 ∧ f.unit = 1) ∨ (f.width = 14 ∧ f.unit = 100) := by
  intro f member
  simp only [decimalFields] at member
  repeat' split at member
  case isFalse.isFalse.isFalse.isFalse.isFalse.isFalse.isFalse.isFalse => cases member
  all_goals
    simp only [List.mem_cons, List.not_mem_nil, or_false] at member
    rcases member with rfl | rfl <;> decide

theorem decode_saturates (ev : BookEvent) (m : List UInt8) (digits : DigitsOnly m) :
    Saturates (wideFields m) (decode ev (m.getD 8 0) m) := by
  intro entry listed
  obtain ⟨f, member, rfl⟩ := List.mem_map.mp listed
  have chars := digits f member
  rw [decode_narrows ev _ m f member]
  simp only [DecimalField.value, DecimalField.narrowed]
  rcases decimalFields_shape _ f member with ⟨width, unit⟩ | ⟨width, unit⟩ | ⟨width, unit⟩
  · rw [width] at chars ⊢
    rw [unit]
    exact readShares_saturates chars
  · rw [width] at chars ⊢
    rw [unit]
    exact parsePrice4dp_saturates chars
  · rw [width] at chars ⊢
    rw [unit]
    exact parseLongPrice_saturates chars

theorem parseMessage_saturates {payload : List UInt8} {sequence ingestTsNs : UInt64}
    {stats : ParseStats} {ev : BookEvent} (digits : DigitsOnly payload)
    (parsed : (parseMessage payload sequence ingestTsNs stats).1 = some ev) :
    Saturates (wideFields payload) ev := by
  simp only [parseMessage] at parsed
  split at parsed
  · cases parsed
  · split at parsed
    · cases parsed
      exact decode_saturates _ payload digits
    · split at parsed
      · cases parsed
      · cases parsed
        exact decode_saturates _ payload digits

end CboePitch

/-- Whatever message is parsed, its wide fields are stored in full or as the limit exactly
when it is no Nasdaq cross or imbalance with a count that does not fit. -/
theorem wire_narrowing_iff (payload : List UInt8) (sequence ingestTsNs : UInt64)
    (ev : BookEvent) :
    (∀ stats, (Itch50.parseMessage payload sequence ingestTsNs stats).1 = some ev →
        (Saturates (Itch50.wideFields payload) ev ↔ Itch50.CountsFit payload)) ∧
      (∀ stats, (IexDeep.parseMessage payload sequence ingestTsNs stats).1 = some ev →
        Saturates (IexDeep.wideFields payload) ev) ∧
      ∀ stats, CboePitch.DigitsOnly payload →
        (CboePitch.parseMessage payload sequence ingestTsNs stats).1 = some ev →
          Saturates (CboePitch.wideFields payload) ev :=
  ⟨fun _ parsed => Itch50.parseMessage_saturates_iff parsed,
    fun _ parsed => IexDeep.parseMessage_saturates parsed,
    fun _ digits parsed => CboePitch.parseMessage_saturates digits parsed⟩

/-- A cross trade of so many shares, zero in every other field. -/
def crossOf (shares : Nat) : List UInt8 :=
  'Q'.toUInt8 :: (List.replicate 10 0 ++ (BigEndian.toBytes 8 shares ++ List.replicate 21 0))

theorem wire_narrowing_iff_small_cross :
    ∃ ev, (Itch50.parseMessage (crossOf 2) 2 0 {}).1 = some ev ∧
      Saturates (Itch50.wideFields (crossOf 2)) ev := by
  have fits : Itch50.CountsFit (crossOf 2) := by
    intro field listed
    have count : Itch50.wideFields (crossOf 2) = [(.qty, 2)] := by decide
    rw [count, List.mem_singleton] at listed
    rw [listed]
    exact Or.inl (by decide)
  exact ⟨_, rfl, ((wire_narrowing_iff (crossOf 2) 2 0 _).1 {} rfl).mpr fits⟩

/-- A cross of `2 ^ 32 + 1` shares is stored as one of a single share, below one of two. -/
theorem wire_narrowing_wraps :
    let huge := (Itch50.parseMessage (crossOf 4294967297) 1 0 {}).1
    let small := (Itch50.parseMessage (crossOf 2) 2 0 {}).1
    Itch50.wideFields (crossOf 4294967297) = [(.qty, 4294967297)] ∧
      Itch50.wideFields (crossOf 2) = [(.qty, 2)] ∧
      huge.map BookEvent.qty = some 1 ∧ small.map BookEvent.qty = some 2 ∧
      ∃ ev, huge = some ev ∧ ¬ Saturates (Itch50.wideFields (crossOf 4294967297)) ev := by
  refine ⟨by decide, by decide, by decide, by decide, _, rfl, ?_⟩
  intro saturates
  have stored := saturates (.qty, 4294967297) (by decide)
  exact absurd stored (by decide)

end FeedHandler
