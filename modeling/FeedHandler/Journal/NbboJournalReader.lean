import FeedHandler.Core.Crc32
import FeedHandler.Journal.RecordNumbering
import FeedHandler.Lib.SealedRecord

/-! The reader of the journal of consolidated quotes. It skips a record with a wrong checksum
and ends at one with a wrong length, as the journal reader does; it keeps no error, and a
checksum runs over the payloads that it hands out. -/
namespace FeedHandler

open LittleEndian
open SealedRecord

/-- The bytes of a quote, as they are copied into a record and out of it. -/
abbrev NbboImage := Payload nbboEventBytes

def NbboObject.image (o : NbboObject) : NbboImage := ⟨o.bytes, o.length_bytes⟩

/-- A flag in memory, if it holds a value of its type. -/
def flagOfByte (byte : UInt8) : Option Bool :=
  if byte = 0 then some false else if byte = 1 then some true else none

/-- The quote an image holds, if its flags have values of their type. -/
def nbboEvent? (image : NbboImage) : Option NbboEvent := do
  let hasBid ← flagOfByte (image.val.getD 24 0)
  let hasAsk ← flagOfByte (image.val.getD 25 0)
  return {
    hasBid, hasAsk
    symbolU64 := word64At image.val 0
    exchangeTsNs := word64At image.val 8
    ingestTsNs := word64At image.val 16
    bidPrice := word32At image.val 28
    bidQty := word32At image.val 32
    askPrice := word32At image.val 36
    askQty := word32At image.val 40
    bidVenue := image.val.getD 44 0
    askVenue := image.val.getD 45 0
    bidVenueSequence := word64At image.val 48
    askVenueSequence := word64At image.val 56 }

/-- Whatever the padding holds, the quote is read back from its image. -/
theorem NbboObject.nbboEvent?_image (o : NbboObject) : nbboEvent? o.image = some o.event := by
  have flag : ∀ b : Bool, flagOfByte (if b then 1 else 0) = some b := by decide
  simp only [nbboEvent?, NbboObject.image, NbboObject.bytes, BigEndian.getD_append,
    BigEndian.getD_here, word64At_append, word64At_here, word32At_append, word32At_here,
    word64At_word64, length_word64, length_word32, Vector.length_toList, List.length_singleton,
    Nat.reduceLeDiff, Nat.reduceSub, Nat.sub_self, le_refl, flag]
  rfl

/-- `kNbboPayloadLenV1`. -/
def nbboPayloadLenV1 : UInt32 := UInt32.ofNat nbboEventBytes

structure NbboJournalReaderStats where
  recordsRead : Nat := 0
  bytesRead : Nat := 0
  crcFailures : Nat := 0
  deriving DecidableEq, Repr

structure NbboJournalReader where
  base : Option (List UInt8) := none
  off : Nat := 0
  stats : NbboJournalReaderStats := {}
  payloadCrc : UInt32 := 0
  deriving DecidableEq, Repr

namespace NbboJournalReader

def close (r : NbboJournalReader) : NbboJournalReader := { r with base := none, off := 0 }

/-- `NbboJournalReader::open` on a file with this content, or on a path without a file. -/
def openFile (r : NbboJournalReader) (file : Option (List UInt8)) : NbboJournalReader × Bool :=
  match file with
  | none => (r.close, false)
  | some bytes =>
    if bytes.length < journalHeaderBytes then (r.close, false)
    else if bytes.take 4 ≠ nbboJournalMagic ∨ word32At bytes 4 ≠ nbboJournalVersion then
      (r.close, false)
    else
      ({ base := some bytes, off := journalHeaderBytes, stats := {}, payloadCrc := 0 }, true)

/-- The loop of `next`. Only a record with a wrong checksum lets it turn again, and it
advances by a record then, so the length of the file is fuel enough. -/
def scan (base : List UInt8) : Nat → NbboJournalReader → Option NbboImage × NbboJournalReader
  | 0, r => (none, r)
  | fuel + 1, r =>
    if r.off + recordHeaderBytes ≤ base.length then
      let record := base.drop r.off
      if whole : word32At record 16 = nbboPayloadLenV1 ∧ r.off + nbboRecordBytes ≤ base.length then
        let image := Payload.ofRecord record (List.length_drop ▸ Nat.le_sub_of_add_le' whole.2)
        let passed := { r with
          off := r.off + nbboRecordBytes
          stats := { r.stats with bytesRead := r.stats.bytesRead + nbboRecordBytes } }
        if crc32Update 0 image.val ≠ word32At record 20 then
          scan base fuel { passed with
            stats := { passed.stats with crcFailures := passed.stats.crcFailures + 1 } }
        else
          (some image,
            { passed with
              payloadCrc := crc32Update r.payloadCrc image.val
              stats := { passed.stats with recordsRead := passed.stats.recordsRead + 1 } })
      else
        (none,
          { r with
            off := base.length
            stats := { r.stats with crcFailures := r.stats.crcFailures + 1 } })
    else (none, r)

/-- What `next` hands out, if it returns true. -/
def next (r : NbboJournalReader) : Option NbboImage × NbboJournalReader :=
  match r.base with
  | none => (none, r)
  | some base => scan base base.length r

/-- `next` until it returns false, for at most the given number of records. -/
def drain : Nat → NbboJournalReader → List NbboImage × NbboJournalReader
  | 0, r => ([], r)
  | fuel + 1, r =>
    match r.next with
    | (none, r) => ([], r)
    | (some image, r) => (image :: (drain fuel r).1, (drain fuel r).2)

end NbboJournalReader

/-- What a consumer sees of a file: the answer of `open`, the quotes, and the reader after the
`next` that returned false. -/
structure NbboJournalRead where
  opened : Bool
  images : List NbboImage
  reader : NbboJournalReader

/-- A new reader opens a file and calls `next` until it returns false. -/
def NbboJournalReader.readFile (file : Option (List UInt8)) : NbboJournalRead :=
  let opened := NbboJournalReader.openFile {} file
  let drained := NbboJournalReader.drain ((file.getD []).length + 1) opened.1
  { opened := opened.2, images := drained.1, reader := drained.2 }

/-- A record of the file, whatever its fields hold. -/
abbrev NbboRecord := Sealed nbboEventBytes

/-- The stored checksum is that of the payload. -/
def nbboIntact (record : NbboRecord) : Bool :=
  decide (crc32Update 0 record.payload.val = record.checksum)

namespace NbboJournalReader

variable {base rest : List UInt8} {r : NbboJournalReader} {record : NbboRecord}

/-- The reader behind a record whose length field is right. -/
def past (r : NbboJournalReader) (record : NbboRecord) : NbboJournalReader :=
  let passed := { r with
    off := r.off + nbboRecordBytes
    stats := { r.stats with bytesRead := r.stats.bytesRead + nbboRecordBytes } }
  if nbboIntact record then
    { passed with
      payloadCrc := crc32Update r.payloadCrc record.payload.val
      stats := { passed.stats with recordsRead := passed.stats.recordsRead + 1 } }
  else { passed with stats := { passed.stats with crcFailures := passed.stats.crcFailures + 1 } }

/-- The reader after it has met something that is no record. -/
def stopAt (r : NbboJournalReader) (rest : List UInt8) : NbboJournalReader :=
  if rest.length < recordHeaderBytes then r
  else
    { r with
      off := r.off + rest.length
      stats := { r.stats with crcFailures := r.stats.crcFailures + 1 } }

theorem past_base (r : NbboJournalReader) (record : NbboRecord) : (r.past record).base = r.base := by
  unfold past
  split <;> rfl

theorem past_off (r : NbboJournalReader) (record : NbboRecord) :
    (r.past record).off = r.off + nbboRecordBytes := by
  unfold past
  split <;> rfl

theorem fits_of_ahead (ahead : base.drop r.off = record.bytes ++ rest) :
    r.off + nbboRecordBytes ≤ base.length := by
  have size := congrArg List.length ahead
  rw [List.length_drop, List.length_append, record.length_bytes] at size
  simp only [nbboRecordBytes, recordHeaderBytes, headerSize] at size ⊢
  omega

/-- At a record with a right length field the loop hands it out or turns again behind it. -/
theorem scan_record (ahead : base.drop r.off = record.bytes ++ rest) (framed : record.Framed)
    (fuel : Nat) :
    scan base (fuel + 1) r =
      if nbboIntact record then (some record.payload, r.past record)
      else scan base fuel (r.past record) := by
  have fits := fits_of_ahead ahead
  have header : r.off + recordHeaderBytes ≤ base.length := by
    rw [nbboRecordBytes] at fits
    omega
  have length : record.length = nbboPayloadLenV1 := framed
  simp only [scan, if_pos header, ahead, Sealed.length_at, Sealed.checksum_at, Sealed.payload_at,
    length, fits, and_self, dite_true, past, nbboIntact, ne_eq, decide_eq_true_eq]
  by_cases good : crc32Update 0 record.payload.val = record.checksum
  · simp only [good, not_true, if_false, if_true]
  · simp only [good, not_false_eq_true, if_true, if_false]

theorem scan_stop (inside : r.off ≤ base.length)
    (unframed : Unsealed nbboEventBytes (base.drop r.off)) (fuel : Nat) :
    scan base (fuel + 1) r = (none, r.stopAt (base.drop r.off)) := by
  have size : r.off + (base.drop r.off).length = base.length := by
    rw [List.length_drop]
    omega
  rw [scan, stopAt, size]
  by_cases header : r.off + recordHeaderBytes ≤ base.length
  · have partial_record : ¬ (word32At (base.drop r.off) 16 = nbboPayloadLenV1 ∧
        r.off + nbboRecordBytes ≤ base.length) := by
      rintro ⟨length, fits⟩
      simp only [nbboRecordBytes, recordHeaderBytes] at fits
      exact unframed ⟨length, by simp only [headerSize]; omega⟩
    rw [if_pos header, if_neg (show ¬ (base.drop r.off).length < recordHeaderBytes by omega)]
    simp only [dif_neg partial_record]
  · rw [if_neg header, if_pos (show (base.drop r.off).length < recordHeaderBytes by omega)]

/-- Fuel for one turn more than there is room for records changes nothing. -/
theorem scan_fuel {fuel : Nat} (inside : r.off ≤ base.length)
    (enough : base.length < r.off + (fuel + 1) * nbboRecordBytes) :
    scan base (fuel + 2) r = scan base (fuel + 1) r := by
  induction fuel generalizing r with
  | zero =>
    have unframed : Unsealed nbboEventBytes (base.drop r.off) := by
      apply unsealed_of_short
      simp only [nbboRecordBytes, recordHeaderBytes] at enough
      rw [List.length_drop, headerSize]
      omega
    rw [scan_stop inside unframed, scan_stop inside unframed]
  | succ fuel ih =>
    by_cases framed : Unsealed nbboEventBytes (base.drop r.off)
    · rw [scan_stop inside framed, scan_stop inside framed]
    · obtain ⟨length, fits⟩ := not_not.mp framed
      have ahead := (Sealed.bytes_ofBytes fits).symm
      have behind := fits_of_ahead ahead
      rw [scan_record ahead length, scan_record ahead length, ih]
      · rwa [past_off]
      · rw [past_off]
        rw [Nat.succ_mul] at enough
        omega

/-- A record with a right length field is handed out or left behind. -/
theorem next_record (mapped : r.base = some base)
    (ahead : base.drop r.off = record.bytes ++ rest) (framed : record.Framed) :
    r.next = if nbboIntact record then (some record.payload, r.past record)
      else (r.past record).next := by
  have fits := fits_of_ahead ahead
  have wide : 2 ≤ nbboRecordBytes := by decide
  obtain ⟨fuel, long⟩ : ∃ fuel, base.length = fuel + 2 := ⟨base.length - 2, by omega⟩
  have further : scan base (fuel + 1) (r.past record) = scan base (fuel + 2) (r.past record) := by
    apply (scan_fuel _ _).symm
    · rwa [past_off]
    · have rows : fuel + 1 ≤ (fuel + 1) * nbboRecordBytes :=
        Nat.le_mul_of_pos_right _ (by decide)
      rw [past_off]
      omega
  rw [next, next, past_base, mapped]
  simp only [long]
  rw [scan_record ahead framed, further]

theorem next_stop (mapped : r.base = some base) (ahead : base.drop r.off = rest)
    (inside : r.off ≤ base.length) (some_bytes : base ≠ [])
    (unframed : Unsealed nbboEventBytes rest) : r.next = (none, r.stopAt rest) := by
  obtain ⟨fuel, long⟩ := Nat.exists_eq_add_one.mpr (List.length_pos_iff.mpr some_bytes)
  rw [next, mapped]
  simp only [long]
  subst ahead
  exact scan_stop inside unframed fuel

/-- Run lemma: of the records in front of the reader the intact ones are handed out. -/
theorem drain_records (mapped : r.base = some base) {records : List NbboRecord}
    (ahead : base.drop r.off = sealedBytes records ++ rest)
    (framed : ∀ record ∈ records, record.Framed) (fuel : Nat) :
    drain ((records.filter nbboIntact).length + (fuel + 1)) r =
      ((records.filter nbboIntact).map Sealed.payload ++
          (drain (fuel + 1) (records.foldl past r)).1,
        (drain (fuel + 1) (records.foldl past r)).2) := by
  induction records generalizing r with
  | nil => simp
  | cons record records ih =>
    have first : base.drop r.off = record.bytes ++ (sealedBytes records ++ rest) := by
      rw [ahead, sealedBytes_cons, List.append_assoc]
    have behind : base.drop (r.past record).off = sealedBytes records ++ rest := by
      rw [past_off, ← List.drop_drop, first]
      exact List.drop_left' record.length_bytes
    have step := next_record mapped first (framed record List.mem_cons_self)
    have following := ih (r := r.past record) ((past_base r record).trans mapped) behind
      (fun other held => framed other (List.mem_cons_of_mem _ held))
    cases good : nbboIntact record with
    | true =>
      simp only [good, if_true] at step
      simp only [List.filter_cons, good, if_true, List.length_cons, List.map_cons, List.foldl_cons]
      rw [Nat.add_right_comm, drain, step]
      simp only [following, List.cons_append]
    | false =>
      simp only [good, Bool.false_eq_true, if_false] at step
      simp only [List.filter_cons, good, Bool.false_eq_true, if_false, List.foldl_cons]
      rw [← following, ← Nat.add_assoc, drain, drain, step]

/-- The counters and the checksum behind the records of a file. -/
def behind (r : NbboJournalReader) (records : List NbboRecord) : NbboJournalReader where
  base := r.base
  off := r.off + records.length * nbboRecordBytes
  stats :=
    { recordsRead := r.stats.recordsRead + records.countP nbboIntact
      bytesRead := r.stats.bytesRead + records.length * nbboRecordBytes
      crcFailures := r.stats.crcFailures + records.countP (!nbboIntact ·) }
  payloadCrc := crc32Update r.payloadCrc
    ((records.filter nbboIntact).flatMap fun record => record.payload.val)

theorem foldl_past (r : NbboJournalReader) (records : List NbboRecord) :
    records.foldl past r = r.behind records := by
  induction records generalizing r with
  | nil =>
    have same : crc32Update r.payloadCrc [] = r.payloadCrc := by simp [crc32Update]
    simp [behind, same]
  | cons record records ih =>
    rw [List.foldl_cons, ih, behind, behind]
    cases good : nbboIntact record with
    | true =>
      simp only [past, good, if_true, List.length_cons, List.countP_cons_of_pos,
        Bool.not_true, Bool.false_eq_true, not_false_eq_true, List.countP_cons_of_neg,
        List.filter_cons, List.flatMap_cons, crc32Update_append, Nat.succ_mul, Nat.add_assoc,
        Nat.add_comm nbboRecordBytes, Nat.add_comm 1]
    | false =>
      simp only [past, good, Bool.false_eq_true, if_false, List.length_cons,
        List.countP_cons_of_neg, List.countP_cons_of_pos, Bool.not_false, not_false_eq_true,
        List.filter_cons, Nat.succ_mul, Nat.add_assoc, Nat.add_comm nbboRecordBytes,
        Nat.add_comm 1]

section ReadFile

variable {data : List UInt8}

/-- A new reader in front of the first record of a file. -/
def atStart (data : List UInt8) : NbboJournalReader :=
  { base := some (nbboJournalHeader ++ data), off := journalHeaderBytes }

theorem openFile_header (r : NbboJournalReader) (data : List UInt8) :
    r.openFile (some (nbboJournalHeader ++ data)) = (atStart data, true) := by
  have long : ¬ (nbboJournalHeader ++ data).length < journalHeaderBytes := by
    simp [nbboJournalHeader, nbboJournalMagic, journalHeaderBytes]
  have magic : (nbboJournalHeader ++ data).take 4 = nbboJournalMagic := rfl
  have version : word32At (nbboJournalHeader ++ data) 4 = nbboJournalVersion := by
    rw [nbboJournalHeader, List.append_assoc, word32At_append (by decide)]
    exact word32At_here nbboJournalVersion
  simp only [openFile, if_neg long, magic, version, ne_eq, not_true, or_self, if_false, atStart]

/-- Only files with a good header are opened. -/
theorem openFile_opened {r : NbboJournalReader} {file : Option (List UInt8)}
    (opened : (r.openFile file).2 = true) : ∃ data, file = some (nbboJournalHeader ++ data) := by
  cases file with
  | none => cases opened
  | some bytes =>
    simp only [openFile] at opened
    split at opened
    · cases opened
    · next long =>
      split at opened
      · cases opened
      · next header =>
        rw [not_or, not_not, not_not] at header
        have eight : 4 + 4 ≤ bytes.length := not_lt.mp long
        refine ⟨bytes.drop 8, congrArg some ?_⟩
        have version := word32_word32At eight
        rw [header.2] at version
        rw [nbboJournalHeader, List.append_assoc, ← version, ← header.1, List.take_append_drop]

/-- What a consumer sees of any file with a good header: the payloads of the intact records in
front of the first thing that is no record, with their number, the number of the others, and
the checksum over what was handed out. -/
theorem readFile_records {records : List NbboRecord}
    (framed : ∀ record ∈ records, record.Framed) {rest : List UInt8}
    (unframed : Unsealed nbboEventBytes rest) :
    readFile (some (nbboJournalHeader ++ (sealedBytes records ++ rest))) =
      { opened := true
        images := (records.filter nbboIntact).map Sealed.payload
        reader := ((atStart (sealedBytes records ++ rest)).behind records).stopAt rest } := by
  have header : nbboJournalHeader.length = journalHeaderBytes := rfl
  have size : (sealedBytes records).length = records.length * nbboRecordBytes :=
    length_sealedBytes records
  have front : (nbboJournalHeader ++ (sealedBytes records ++ rest)).drop journalHeaderBytes =
      sealedBytes records ++ rest := List.drop_left' header
  obtain ⟨fuel, enough⟩ : ∃ fuel,
      (nbboJournalHeader ++ (sealedBytes records ++ rest)).length + 1 =
        (records.filter nbboIntact).length + (fuel + 1) := by
    have kept := List.length_filter_le nbboIntact records
    have room : records.length ≤ records.length * nbboRecordBytes :=
      Nat.le_mul_of_pos_right _ (by decide)
    refine ⟨(nbboJournalHeader ++ (sealedBytes records ++ rest)).length -
      (records.filter nbboIntact).length, ?_⟩
    rw [List.length_append, List.length_append]
    omega
  have drained := drain_records (r := atStart (sealedBytes records ++ rest)) rfl front framed fuel
  have stopped := next_stop (r := (atStart (sealedBytes records ++ rest)).behind records)
    rfl (by
      rw [behind, atStart, ← List.drop_drop, front, ← size, List.drop_left]) (by
      rw [behind, atStart, List.length_append, List.length_append, header, size]
      simp only
      omega) (List.append_ne_nil_of_left_ne_nil (by decide) _) unframed
  rw [readFile, openFile_header]
  simp only [Option.getD_some, enough, drained, foldl_past]
  rw [drain, stopped]
  simp

end ReadFile

/-- Exactly the files with the header are opened. Whatever they hold, it is records with right
length fields and something that is none. Of the records the intact ones are handed out in
order, the others are counted, and what ends the reading counts as one more if it is not
shorter than the header of a record. The checksum of the reader is that of the payloads. -/
theorem delivers_intact (file : List UInt8) :
    ((readFile (some file)).opened = true ↔ ∃ records : List NbboRecord, ∃ rest,
      file = nbboJournalHeader ++ (sealedBytes records ++ rest) ∧
        (∀ record ∈ records, record.Framed) ∧ Unsealed nbboEventBytes rest) ∧
    ∀ (records : List NbboRecord) (rest : List UInt8),
      file = nbboJournalHeader ++ (sealedBytes records ++ rest) →
      (∀ record ∈ records, record.Framed) → Unsealed nbboEventBytes rest →
      let read := readFile (some file)
      read.images = (records.filter nbboIntact).map Sealed.payload ∧
        read.reader.stats.recordsRead = read.images.length ∧
        read.reader.stats.bytesRead = records.length * nbboRecordBytes ∧
        read.reader.stats.crcFailures = records.countP (!nbboIntact ·) +
          (if rest.length < recordHeaderBytes then 0 else 1) ∧
        read.reader.payloadCrc = crc32Update 0 (read.images.flatMap (·.val)) := by
  constructor
  · constructor
    · intro opened
      obtain ⟨data, same⟩ := openFile_opened opened
      obtain ⟨records, rest, split, framed, unframed⟩ := exists_sealed nbboEventBytes data
      exact ⟨records, rest, by rw [← split]; exact Option.some.inj same, framed, unframed⟩
    · rintro ⟨records, rest, rfl, framed, unframed⟩
      rw [readFile_records framed unframed]
  · rintro records rest rfl framed unframed
    rw [readFile_records framed unframed]
    have counted := List.countP_eq_length_filter (p := nbboIntact) (l := records)
    simp only [stopAt, behind, atStart]
    split
    · simp [counted, List.flatMap_map]
    · simp [counted, List.flatMap_map]

end NbboJournalReader

end FeedHandler
