import FeedHandler.Core.Crc32
import FeedHandler.Lib.LittleEndian

/-! The journal file: a header of a magic and a version, then records of one fixed size,
each a numbered and checksummed image of an event object as it lies in the memory of the
64-bit little-endian builds. -/
namespace FeedHandler

open BigEndian (sliceAt)
open LittleEndian

def Side.code : Side → UInt8
  | .buy => 0
  | .sell => 1
  | .unknown => 2

def Venue.ofCode (code : UInt8) : Option Venue := Venue.all.find? (·.code == code)

def Side.ofCode (code : UInt8) : Option Side :=
  [Side.buy, .sell, .unknown].find? (·.code == code)

def EventType.all : List EventType :=
  [.add, .addMpid, .execute, .executePrice, .cancel, .delete, .replace, .trade, .crossTrade,
    .imbalance, .system, .stockDirectory, .unknown]

def EventType.ofCode (code : UInt8) : Option EventType := EventType.all.find? (·.code == code)

theorem Venue.ofCode_code (venue : Venue) : Venue.ofCode venue.code = some venue := by
  cases venue <;> rfl

theorem Side.ofCode_code (side : Side) : Side.ofCode side.code = some side := by
  cases side <;> rfl

theorem EventType.ofCode_code (type : EventType) : EventType.ofCode type.code = some type := by
  cases type <;> rfl

/-- `sizeof(BookEvent)`. -/
def eventBytes : Nat := 88

/-- The bytes of an event object, as they are copied into a record and out of it. -/
abbrev EventImage := { bytes : List UInt8 // bytes.length = eventBytes }

def journalMagic : List UInt8 := ['M'.toUInt8, 'F'.toUInt8, 'J'.toUInt8, 'N'.toUInt8]

def journalVersion : UInt32 := 1

def journalHeader : List UInt8 := journalMagic ++ word32 journalVersion

/-- `sizeof(JournalHeader)`. -/
def journalHeaderBytes : Nat := 8

/-- `sizeof(JournalRecord)`, the part of a record before the event. -/
def recordHeaderBytes : Nat := 24

def recordBytes : Nat := recordHeaderBytes + eventBytes

/-- The payload of a record, behind its header. -/
def EventImage.ofRecord (record : List UInt8) (whole : recordBytes ≤ record.length) : EventImage :=
  ⟨(record.drop recordHeaderBytes).take eventBytes, by
    rw [recordBytes] at whole
    rw [List.length_take, List.length_drop]
    omega⟩

def journalPayloadLenV1 : UInt32 := UInt32.ofNat eventBytes

/-- The fields of a record as it is stored, whatever they hold. -/
structure StoredRecord where
  monotonicSeq : UInt64
  ingestTsNs : UInt64
  payloadLen : UInt32
  crc32 : UInt32
  image : EventImage
  deriving DecidableEq

namespace StoredRecord

def bytes (record : StoredRecord) : List UInt8 :=
  word64 record.monotonicSeq ++ (word64 record.ingestTsNs ++ (word32 record.payloadLen ++
  (word32 record.crc32 ++ record.image.val)))

/-- The record in front of a string. -/
def ofRecord (record : List UInt8) (whole : recordBytes ≤ record.length) : StoredRecord where
  monotonicSeq := word64At record 0
  ingestTsNs := word64At record 8
  payloadLen := word32At record 16
  crc32 := word32At record 20
  image := .ofRecord record whole

/-- The stored checksum is that of the payload. -/
def intact (record : StoredRecord) : Bool := decide (crc32Update 0 record.image.val = record.crc32)

@[simp] theorem length_bytes (record : StoredRecord) : record.bytes.length = recordBytes := by
  simp [bytes, recordBytes, recordHeaderBytes, eventBytes, record.image.property]

section Fields

variable (record : StoredRecord) (rest : List UInt8)

theorem seq_at : word64At (record.bytes ++ rest) 0 = record.monotonicSeq := by
  simp only [bytes, List.append_assoc, word64At_here]

theorem ingestTs_at : word64At (record.bytes ++ rest) 8 = record.ingestTsNs := by
  simp only [bytes, List.append_assoc, word64At_append, word64At_here, length_word64, le_refl,
    Nat.sub_self]

theorem payloadLen_at : word32At (record.bytes ++ rest) 16 = record.payloadLen := by
  simp only [bytes, List.append_assoc, word32At_append, word32At_here, length_word64,
    Nat.reduceLeDiff, Nat.reduceSub, Nat.sub_self, le_refl]

theorem crc_at : word32At (record.bytes ++ rest) 20 = record.crc32 := by
  simp only [bytes, List.append_assoc, word32At_append, word32At_here, length_word64,
    length_word32, Nat.reduceLeDiff, Nat.reduceSub, Nat.sub_self, le_refl]

theorem image_at (whole : recordBytes ≤ (record.bytes ++ rest).length) :
    EventImage.ofRecord (record.bytes ++ rest) whole = record.image := by
  have front : record.bytes ++ rest = (word64 record.monotonicSeq ++ (word64 record.ingestTsNs ++
      (word32 record.payloadLen ++ word32 record.crc32))) ++ (record.image.val ++ rest) := by
    simp only [bytes, List.append_assoc]
  apply Subtype.ext
  simp only [EventImage.ofRecord]
  rw [front, List.drop_left' (by simp [recordHeaderBytes]), List.take_left' record.image.property]

end Fields

/-- Every string that is long enough starts with the record that is read from it. -/
theorem bytes_ofRecord {record : List UInt8} (whole : recordBytes ≤ record.length) :
    (ofRecord record whole).bytes ++ record.drop recordBytes = record := by
  have size := whole
  simp only [recordBytes, recordHeaderBytes, eventBytes] at size
  have first := word64_word64At (show 0 + 8 ≤ record.length by omega)
  have second := word64_word64At (show 8 + 8 ≤ record.length by omega)
  have third := word32_word32At (show 16 + 4 ≤ record.length by omega)
  have fourth := word32_word32At (show 20 + 4 ≤ record.length by omega)
  have fifth : record.drop (20 + 4) =
      (EventImage.ofRecord record whole).val ++ record.drop recordBytes := by
    have cut := List.take_append_drop eventBytes (record.drop recordHeaderBytes)
    rw [List.drop_drop] at cut
    exact cut.symm
  rw [fifth] at fourth
  simp only [bytes, ofRecord, List.append_assoc]
  exact (first.trans (congrArg _ (second.trans (congrArg _
    (third.trans (congrArg _ fourth)))))).symm

end StoredRecord

/-- What a record tells about an event. -/
structure JournalEntry where
  monotonicSeq : UInt64
  ingestTsNs : UInt64
  image : EventImage
  deriving DecidableEq

namespace JournalEntry

def bytes (entry : JournalEntry) : List UInt8 :=
  word64 entry.monotonicSeq ++ (word64 entry.ingestTsNs ++ (word32 journalPayloadLenV1 ++
  (word32 (crc32Update 0 entry.image.val) ++ entry.image.val)))

/-- The record that the entry is written to. -/
def stored (entry : JournalEntry) : StoredRecord :=
  ⟨entry.monotonicSeq, entry.ingestTsNs, journalPayloadLenV1, crc32Update 0 entry.image.val,
    entry.image⟩

theorem bytes_stored (entry : JournalEntry) : entry.stored.bytes = entry.bytes := rfl

theorem length_bytes (entry : JournalEntry) : entry.bytes.length = recordBytes :=
  entry.stored.length_bytes

theorem stored_intact (entry : JournalEntry) : entry.stored.intact = true :=
  decide_eq_true rfl

/-- A string with a right length field and checksum starts with the record of what is read
from it. -/
theorem bytes_ahead {record : List UInt8} (whole : recordBytes ≤ record.length)
    (len : word32At record 16 = journalPayloadLenV1)
    (crc : crc32Update 0 (EventImage.ofRecord record whole).val = word32At record 20) :
    record = JournalEntry.bytes ⟨word64At record 0, word64At record 8, .ofRecord record whole⟩ ++
      record.drop recordBytes := by
  have read := StoredRecord.bytes_ofRecord whole
  have fields : JournalEntry.stored ⟨word64At record 0, word64At record 8, .ofRecord record whole⟩ =
      .ofRecord record whole := by
    rw [stored, StoredRecord.ofRecord, len, crc]
  rw [← bytes_stored, fields, read]

end JournalEntry

/-- What the record tells if its checksum is right. -/
def StoredRecord.entry (record : StoredRecord) : JournalEntry :=
  ⟨record.monotonicSeq, record.ingestTsNs, record.image⟩

def entriesBytes (entries : List JournalEntry) : List UInt8 := entries.flatMap JournalEntry.bytes

theorem entriesBytes_append (xs ys : List JournalEntry) :
    entriesBytes (xs ++ ys) = entriesBytes xs ++ entriesBytes ys := List.flatMap_append

theorem length_entriesBytes (entries : List JournalEntry) :
    (entriesBytes entries).length = entries.length * recordBytes := by
  induction entries with
  | nil => simp [entriesBytes]
  | cons entry rest ih =>
    simp only [entriesBytes, List.flatMap_cons, List.length_append, List.length_cons,
      JournalEntry.length_bytes] at ih ⊢
    rw [ih, Nat.succ_mul, Nat.add_comm]

/-- The bytes of an event object that carry no value: behind the two leading
enumerations, in a disengaged `mpid`, and at the end. -/
structure Padding where
  gap : Vector UInt8 6 := Vector.replicate 6 0
  noMpid : Vector UInt8 4 := Vector.replicate 4 0
  tail : UInt8 := 0
  deriving DecidableEq, Repr

/-- An event in memory. -/
structure EventObject where
  event : BookEvent
  padding : Padding := {}
  deriving DecidableEq, Repr

namespace EventObject

def bytes (o : EventObject) : List UInt8 :=
  [o.event.venue.code] ++ ([o.event.type.code] ++ (o.padding.gap.toList ++
  (word64 o.event.sequence ++ (word64 o.event.exchangeTsNs ++ (word64 o.event.ingestTsNs ++
  (o.event.symbol.bytes.toList ++ (word64 o.event.orderId ++ (word64 o.event.matchId ++
  (word64 o.event.referenceOrderId ++ (word32 o.event.qty ++ (word32 o.event.price ++
  (word32 o.event.prevQty ++ (word32 o.event.prevPrice ++ ([o.event.side.code] ++
  ((o.event.mpid.getD o.padding.noMpid).toList ++ ([if o.event.mpid.isSome then 1 else 0] ++
  ([o.event.rawType] ++ [o.padding.tail])))))))))))))))))

theorem length_bytes (o : EventObject) : o.bytes.length = eventBytes := by
  simp [bytes, eventBytes]

def image (o : EventObject) : EventImage := ⟨o.bytes, o.length_bytes⟩

end EventObject

/-- The event an image holds, if its enumerations have values of their types. -/
def EventImage.event? (image : EventImage) : Option BookEvent := do
  let venue ← Venue.ofCode (image.val.getD 0 0)
  let type ← EventType.ofCode (image.val.getD 1 0)
  let side ← Side.ofCode (image.val.getD 80 0)
  return {
    venue, type, side
    sequence := word64At image.val 8
    exchangeTsNs := word64At image.val 16
    ingestTsNs := word64At image.val 24
    symbol := ⟨sliceAt image.val 32 8⟩
    orderId := word64At image.val 40
    matchId := word64At image.val 48
    referenceOrderId := word64At image.val 56
    qty := word32At image.val 64
    price := word32At image.val 68
    prevQty := word32At image.val 72
    prevPrice := word32At image.val 76
    mpid := if image.val.getD 85 0 = 0 then none else some (sliceAt image.val 81 4)
    rawType := image.val.getD 86 0 }

/-- Whatever the padding holds, the event is read back from its image. -/
theorem EventObject.event?_image (o : EventObject) : o.image.event? = some o.event := by
  have engaged : (if (if o.event.mpid.isSome then (1 : UInt8) else 0) = 0 then none
      else some (o.event.mpid.getD o.padding.noMpid)) = o.event.mpid := by
    cases o.event.mpid <;> rfl
  simp only [EventImage.event?, EventObject.image, EventObject.bytes, BigEndian.getD_append,
    BigEndian.getD_here, BigEndian.sliceAt_append, BigEndian.sliceAt_here, word64At_append,
    word64At_here, word32At_append, word32At_here, length_word64, length_word32,
    Vector.length_toList, List.length_singleton, Nat.reduceLeDiff, Nat.reduceSub, Nat.sub_self,
    le_refl, Venue.ofCode_code, EventType.ofCode_code, Side.ofCode_code, engaged]
  rfl

end FeedHandler
