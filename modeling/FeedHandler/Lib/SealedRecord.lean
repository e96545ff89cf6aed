import FeedHandler.Lib.LittleEndian

/-! Records of one size in a byte string: a number, a time, the length and a checksum of the
payload, and the payload. Whatever stands in a string, it is records with a right length
field followed by something that is none. -/
namespace SealedRecord

open LittleEndian

/-- The payloads of one size. -/
abbrev Payload (width : Nat) := { bytes : List UInt8 // bytes.length = width }

/-- The fields of a record as it is stored, whatever they hold. -/
structure Sealed (width : Nat) where
  number : UInt64
  stamp : UInt64
  length : UInt32
  checksum : UInt32
  payload : Payload width
  deriving DecidableEq

/-- The bytes in front of the payload. -/
def headerSize : Nat := 24

variable {width : Nat}

/-- The payload of the record in front of a string. -/
def Payload.ofRecord (record : List UInt8) (whole : headerSize + width ≤ record.length) :
    Payload width :=
  ⟨(record.drop headerSize).take width, by
    rw [List.length_take, List.length_drop]
    omega⟩

namespace Sealed

def bytes (record : Sealed width) : List UInt8 :=
  word64 record.number ++ (word64 record.stamp ++ (word32 record.length ++
  (word32 record.checksum ++ record.payload.val)))

/-- The record in front of a string. -/
def ofBytes (record : List UInt8) (whole : headerSize + width ≤ record.length) : Sealed width where
  number := word64At record 0
  stamp := word64At record 8
  length := word32At record 16
  checksum := word32At record 20
  payload := .ofRecord record whole

/-- The length field is that of the payload. -/
def Framed (record : Sealed width) : Prop := record.length = UInt32.ofNat width

@[simp] theorem length_bytes (record : Sealed width) :
    record.bytes.length = headerSize + width := by
  simp only [bytes, List.length_append, length_word64, length_word32, record.payload.property,
    headerSize]
  omega

section Fields

variable (record : Sealed width) (rest : List UInt8)

theorem length_at : word32At (record.bytes ++ rest) 16 = record.length := by
  simp only [bytes, List.append_assoc, word32At_append, word32At_here, length_word64,
    Nat.reduceLeDiff, Nat.reduceSub, Nat.sub_self, le_refl]

theorem checksum_at : word32At (record.bytes ++ rest) 20 = record.checksum := by
  simp only [bytes, List.append_assoc, word32At_append, word32At_here, length_word64,
    length_word32, Nat.reduceLeDiff, Nat.reduceSub, Nat.sub_self, le_refl]

theorem payload_at (whole : headerSize + width ≤ (record.bytes ++ rest).length) :
    Payload.ofRecord (record.bytes ++ rest) whole = record.payload := by
  have front : record.bytes ++ rest = (word64 record.number ++ (word64 record.stamp ++
      (word32 record.length ++ word32 record.checksum))) ++ (record.payload.val ++ rest) := by
    simp only [bytes, List.append_assoc]
  apply Subtype.ext
  simp only [Payload.ofRecord]
  rw [front, List.drop_left' (by simp [headerSize]), List.take_left' record.payload.property]

end Fields

/-- Every string that is long enough starts with the record that is read from it. -/
theorem bytes_ofBytes {record : List UInt8} (whole : headerSize + width ≤ record.length) :
    (ofBytes record whole).bytes ++ record.drop (headerSize + width) = record := by
  have size := whole
  simp only [headerSize] at size
  have first := word64_word64At (show 0 + 8 ≤ record.length by omega)
  have second := word64_word64At (show 8 + 8 ≤ record.length by omega)
  have third := word32_word32At (show 16 + 4 ≤ record.length by omega)
  have fourth := word32_word32At (show 20 + 4 ≤ record.length by omega)
  have fifth : record.drop (20 + 4) =
      (Payload.ofRecord record whole).val ++ record.drop (headerSize + width) := by
    have cut := List.take_append_drop width (record.drop headerSize)
    rw [List.drop_drop] at cut
    exact cut.symm
  rw [fifth] at fourth
  simp only [bytes, ofBytes, List.append_assoc]
  exact (first.trans (congrArg _ (second.trans (congrArg _
    (third.trans (congrArg _ fourth)))))).symm

end Sealed

def sealedBytes (records : List (Sealed width)) : List UInt8 := records.flatMap Sealed.bytes

@[simp] theorem sealedBytes_cons (record : Sealed width) (records : List (Sealed width)) :
    sealedBytes (record :: records) = record.bytes ++ sealedBytes records := List.flatMap_cons

theorem length_sealedBytes (records : List (Sealed width)) :
    (sealedBytes records).length = records.length * (headerSize + width) := by
  induction records with
  | nil => simp [sealedBytes]
  | cons record rest ih =>
    rw [sealedBytes_cons, List.length_append, ih, record.length_bytes, List.length_cons,
      Nat.succ_mul, Nat.add_comm]

/-- No whole record with a right length field is in front. -/
def Unsealed (width : Nat) (rest : List UInt8) : Prop :=
  ¬ (word32At rest 16 = UInt32.ofNat width ∧ headerSize + width ≤ rest.length)

theorem unsealed_of_short {rest : List UInt8} (short : rest.length < headerSize + width) :
    Unsealed width rest := fun whole => absurd whole.2 (not_le.mpr short)

/-- Every string is records with right length fields and something that is none. -/
theorem exists_sealed (width : Nat) (data : List UInt8) :
    ∃ (records : List (Sealed width)) (rest : List UInt8), data = sealedBytes records ++ rest ∧
      (∀ record ∈ records, record.Framed) ∧ Unsealed width rest := by
  by_cases whole : word32At data 16 = UInt32.ofNat width ∧ headerSize + width ≤ data.length
  · obtain ⟨framed, fits⟩ := whole
    obtain ⟨records, rest, behind, others, ends⟩ :=
      exists_sealed width (data.drop (headerSize + width))
    have front := Sealed.bytes_ofBytes fits
    refine ⟨.ofBytes data fits :: records, rest, ?_, ?_, ends⟩
    · rw [sealedBytes_cons, List.append_assoc, ← behind, front]
    · intro record held
      cases held with
      | head => exact framed
      | tail _ held => exact others record held
  · exact ⟨[], data, rfl, by simp, whole⟩
termination_by data.length
decreasing_by
  rw [List.length_drop]
  simp only [headerSize] at fits ⊢
  omega

end SealedRecord
