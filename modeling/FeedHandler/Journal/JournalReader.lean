import FeedHandler.Journal.JournalFormat

/-! The journal reader: it maps a file, checks the header and takes one record at a time
at a fixed stride. A record with a wrong checksum is skipped; one with a wrong length, or
one that the file cuts off, ends the reading. -/
namespace FeedHandler

open LittleEndian

structure JournalReaderStats where
  recordsRead : Nat := 0
  crcFailures : Nat := 0
  bytesRead : Nat := 0
  deriving DecidableEq, Repr

structure JournalReader where
  base : Option (List UInt8) := none
  off : Nat := 0
  stats : JournalReaderStats := {}
  errorReason : Option String := none
  errorOffset : Nat := 0
  hadError : Bool := false
  deriving DecidableEq, Repr

namespace JournalReader

def setError (r : JournalReader) (reason : String) (offset : Nat) : JournalReader :=
  { r with errorReason := some reason, errorOffset := offset, hadError := true }

def close (r : JournalReader) : JournalReader := { r with base := none, off := 0 }

/-- `JournalReader::open` on a file with this content, or on a path without a file. -/
def openFile (r : JournalReader) (file : Option (List UInt8)) : JournalReader × Bool :=
  let r := { r.close with hadError := false, errorReason := none, errorOffset := 0 }
  match file with
  | none => (r.setError "record_decode" 0, false)
  | some bytes =>
    if bytes.length < journalHeaderBytes then ((r.setError "unexpected_eof" 0).close, false)
    else if bytes.take 4 ≠ journalMagic then ((r.setError "header_magic" 0).close, false)
    else if word32At bytes 4 ≠ journalVersion then ((r.setError "header_version" 0).close, false)
    else ({ r with base := some bytes, off := journalHeaderBytes, stats := {} }, true)

/-- The loop of `next`. Only a record with a wrong checksum lets it turn again, and it
advances by a record then, so the length of the file is fuel enough. -/
def scan (base : List UInt8) : Nat → JournalReader → Option JournalEntry × JournalReader
  | 0, r => (none, r)
  | fuel + 1, r =>
    if r.off + recordHeaderBytes ≤ base.length then
      let record := base.drop r.off
      if whole : word32At record 16 = journalPayloadLenV1 ∧ r.off + recordBytes ≤ base.length then
        let image := EventImage.ofRecord record (List.length_drop ▸ Nat.le_sub_of_add_le' whole.2)
        let passed := { r with
          off := r.off + recordBytes
          stats := { r.stats with bytesRead := r.stats.bytesRead + recordBytes } }
        if crc32Update 0 image.val ≠ word32At record 20 then
          scan base fuel
            ({ passed with
              stats := { passed.stats with crcFailures := passed.stats.crcFailures + 1 } }.setError
                "record_crc" r.off)
        else
          (some ⟨word64At record 0, word64At record 8, image⟩,
            { passed with
              stats := { passed.stats with recordsRead := passed.stats.recordsRead + 1 } })
      else
        let reason :=
          if word32At record 16 ≠ journalPayloadLenV1 then "record_size" else "unexpected_eof"
        (none,
          { { r with stats := { r.stats with crcFailures := r.stats.crcFailures + 1 } }.setError
              reason r.off with off := base.length })
    else if r.off ≠ base.length then (none, r.setError "unexpected_eof" r.off)
    else (none, r)

/-- What `next` hands out, if it returns true. -/
def next (r : JournalReader) : Option JournalEntry × JournalReader :=
  match r.base with
  | none => (none, r)
  | some base => scan base base.length r

/-- `next` until it returns false, for at most the given number of records. -/
def drain : Nat → JournalReader → List JournalEntry × JournalReader
  | 0, r => ([], r)
  | fuel + 1, r =>
    match r.next with
    | (none, r) => ([], r)
    | (some entry, r) => (entry :: (drain fuel r).1, (drain fuel r).2)

end JournalReader

/-- What a consumer sees of a file: the answer of `open`, the records, and the reader
after the `next` that returned false. -/
structure JournalRead where
  opened : Bool
  entries : List JournalEntry
  reader : JournalReader

/-- A new reader opens a file and calls `next` until it returns false. Every record takes
bytes of the file, so its length is fuel enough. -/
def JournalReader.readFile (file : Option (List UInt8)) : JournalRead :=
  let opened := JournalReader.openFile {} file
  let drained := JournalReader.drain ((file.getD []).length + 1) opened.1
  { opened := opened.2, entries := drained.1, reader := drained.2 }

namespace JournalReader

variable {base rest : List UInt8} {entries : List JournalEntry} {entry : JournalEntry}
  {r after : JournalReader}

/-- The reader after it has handed out `count` records in a row. -/
def advanced (r : JournalReader) (count : Nat) : JournalReader :=
  { r with
    off := r.off + count * recordBytes
    stats := { r.stats with
      recordsRead := r.stats.recordsRead + count
      bytesRead := r.stats.bytesRead + count * recordBytes } }

theorem advanced_zero (r : JournalReader) : r.advanced 0 = r := by
  simp [advanced]

theorem advanced_succ (r : JournalReader) (count : Nat) :
    (r.advanced 1).advanced count = r.advanced (count + 1) := by
  simp only [advanced, Nat.succ_mul, Nat.add_assoc, Nat.zero_mul, Nat.zero_add, Nat.add_comm 1,
    Nat.add_comm recordBytes]

/-- The reader behind a record whose length field is right. -/
def past (r : JournalReader) (record : StoredRecord) : JournalReader :=
  let passed := { r with
    off := r.off + recordBytes
    stats := { r.stats with bytesRead := r.stats.bytesRead + recordBytes } }
  if record.intact then
    { passed with stats := { passed.stats with recordsRead := passed.stats.recordsRead + 1 } }
  else
    { passed with
      stats := { passed.stats with crcFailures := passed.stats.crcFailures + 1 } }.setError
        "record_crc" r.off

theorem past_base (r : JournalReader) (record : StoredRecord) : (r.past record).base = r.base := by
  unfold past
  split <;> rfl

theorem past_off (r : JournalReader) (record : StoredRecord) :
    (r.past record).off = r.off + recordBytes := by
  unfold past
  split <;> rfl

theorem past_stored (r : JournalReader) (entry : JournalEntry) :
    r.past entry.stored = r.advanced 1 := by
  simp [past, entry.stored_intact, advanced]

theorem fits_of_ahead {record : StoredRecord} (ahead : base.drop r.off = record.bytes ++ rest) :
    r.off + recordBytes ≤ base.length := by
  have size := congrArg List.length ahead
  simp only [List.length_drop, List.length_append, StoredRecord.length_bytes, recordBytes,
    recordHeaderBytes, eventBytes] at size ⊢
  omega

/-- At a record with a right length field the loop hands it out or turns again behind it. -/
theorem scan_record {record : StoredRecord} (ahead : base.drop r.off = record.bytes ++ rest)
    (framed : record.payloadLen = journalPayloadLenV1) (fuel : Nat) :
    scan base (fuel + 1) r =
      if record.intact then (some record.entry, r.past record)
      else scan base fuel (r.past record) := by
  have fits := fits_of_ahead ahead
  have header : r.off + recordHeaderBytes ≤ base.length := by
    rw [recordBytes] at fits
    omega
  simp only [scan, if_pos header, ahead, StoredRecord.payloadLen_at, StoredRecord.crc_at,
    StoredRecord.image_at, StoredRecord.seq_at, StoredRecord.ingestTs_at, framed, fits, and_self,
    dite_true, past, StoredRecord.intact, StoredRecord.entry, ne_eq, decide_eq_true_eq]
  by_cases good : crc32Update 0 record.image.val = record.crc32
  · simp only [good, not_true, if_false, if_true]
  · simp only [good, not_false_eq_true, if_true, if_false]

/-- At a good record the loop hands it out. -/
theorem scan_entry (ahead : base.drop r.off = entry.bytes ++ rest) (fuel : Nat) :
    scan base (fuel + 1) r = (some entry, r.advanced 1) := by
  have step : scan base (fuel + 1) r =
      if entry.stored.intact then (some entry.stored.entry, r.past entry.stored)
      else scan base fuel (r.past entry.stored) := scan_record ahead rfl fuel
  rwa [if_pos entry.stored_intact, past_stored] at step

/-- Where the file ends before a whole record, nothing is handed out. -/
theorem scan_short (short : base.length < r.off + recordBytes) (fuel : Nat) :
    (scan base fuel r).1 = none := by
  cases fuel with
  | zero => rfl
  | succ fuel =>
    simp only [scan]
    split
    · rw [dif_neg (fun whole => absurd whole.2 (by omega))]
    · split <;> rfl

theorem scan_end (done : r.off = base.length) (fuel : Nat) : scan base fuel r = (none, r) := by
  cases fuel with
  | zero => rfl
  | succ fuel =>
    have past : ¬ r.off + recordHeaderBytes ≤ base.length := by
      rw [done, recordHeaderBytes]
      omega
    rw [scan, if_neg past, if_neg (not_not.mpr done)]

theorem next_entry (mapped : r.base = some base) (ahead : base.drop r.off = entry.bytes ++ rest) :
    r.next = (some entry, r.advanced 1) := by
  obtain ⟨fuel, long⟩ : ∃ fuel, base.length = fuel + 1 := by
    apply Nat.exists_eq_add_one.mpr
    have size := congrArg List.length ahead
    simp only [List.length_drop, List.length_append, JournalEntry.length_bytes, recordBytes,
      recordHeaderBytes, eventBytes] at size
    omega
  simp only [next, mapped, long]
  exact scan_entry ahead fuel

/-- Run lemma: the records in front of the reader are handed out one after the other. -/
theorem drain_entries (mapped : r.base = some base)
    (ahead : base.drop r.off = entriesBytes entries ++ rest) (fuel : Nat) :
    drain (entries.length + fuel) r =
      (entries ++ (drain fuel (r.advanced entries.length)).1,
        (drain fuel (r.advanced entries.length)).2) := by
  induction entries generalizing r with
  | nil => simp [advanced_zero]
  | cons entry entries ih =>
    simp only [entriesBytes, List.flatMap_cons, List.append_assoc] at ahead
    have behind : base.drop (r.advanced 1).off = entriesBytes entries ++ rest := by
      simp only [advanced, Nat.one_mul]
      rw [← List.drop_drop, ahead, List.drop_left' entry.length_bytes]
      rfl
    have following := ih (r := r.advanced 1) mapped behind
    rw [List.length_cons, Nat.add_right_comm, drain, next_entry mapped ahead]
    simp only [following, advanced_succ, List.cons_append]

/-- What the loop hands out is a record of the file, at a whole number of records ahead. -/
theorem scan_some {fuel : Nat} (found : scan base fuel r = (some entry, after)) :
    ∃ skipped, after.base = r.base ∧ after.off = r.off + (skipped + 1) * recordBytes ∧
      base.drop (r.off + skipped * recordBytes) = entry.bytes ++ base.drop after.off := by
  induction fuel generalizing r with
  | zero => simp [scan] at found
  | succ fuel ih =>
    simp only [scan] at found
    split at found
    · split at found
      · next whole =>
        obtain ⟨len, fits⟩ := whole
        split at found
        · -- a wrong checksum: the rest of the loop starts a record further on
          obtain ⟨skipped, mapped, off, record⟩ := ih found
          simp only [setError] at mapped off record
          have further : r.off + recordBytes + skipped * recordBytes =
              r.off + (skipped + 1) * recordBytes := by
            rw [Nat.succ_mul]
            omega
          refine ⟨skipped + 1, mapped, ?_, further ▸ record⟩
          rw [off, Nat.succ_mul (skipped + 1), Nat.succ_mul]
          omega
        · next same =>
          cases found
          refine ⟨0, rfl, by simp, ?_⟩
          have ahead := JournalEntry.bytes_ahead _ len (not_ne_iff.mp same)
          simpa using ahead
      · cases found
    · split at found <;> cases found

theorem next_some (mapped : r.base = some base) (found : r.next = (some entry, after)) :
    ∃ skipped, after.base = some base ∧ after.off = r.off + (skipped + 1) * recordBytes ∧
      base.drop (r.off + skipped * recordBytes) = entry.bytes ++ base.drop after.off := by
  simp only [next, mapped] at found
  obtain ⟨skipped, same, off, record⟩ := scan_some found
  exact ⟨skipped, same.trans mapped, off, record⟩

theorem advance_inside {off skipped : Nat}
    (record : base.drop (off + skipped * recordBytes) = entry.bytes ++ rest) :
    off + (skipped + 1) * recordBytes ≤ base.length := by
  have size := congrArg List.length record
  have positive : 0 < recordBytes := by decide
  rw [List.length_drop, List.length_append, JournalEntry.length_bytes] at size
  rw [Nat.succ_mul]
  omega

/-- Every record that is handed out takes its place in the file. -/
theorem drain_inside (mapped : r.base = some base) (inside : r.off ≤ base.length) (fuel : Nat) :
    r.off + (drain fuel r).1.length * recordBytes ≤ base.length := by
  induction fuel generalizing r with
  | zero => simpa [drain] using inside
  | succ fuel ih =>
    cases step : r.next with
    | mk result after =>
      cases result with
      | none => simpa [drain, step] using inside
      | some entry =>
        obtain ⟨skipped, base, off, record⟩ := next_some mapped step
        have further := ih base (off ▸ advance_inside record)
        simp only [drain, step, List.length_cons, Nat.succ_mul] at off ⊢
        omega

/-- If as many records are handed out as have room, they are all that the file holds:
none has been skipped. -/
theorem drain_full (mapped : r.base = some base) (inside : r.off ≤ base.length) {fuel : Nat}
    (full : base.length < r.off + ((drain fuel r).1.length + 1) * recordBytes) :
    ∃ rest, base.drop r.off = entriesBytes (drain fuel r).1 ++ rest := by
  induction fuel generalizing r with
  | zero => exact ⟨_, rfl⟩
  | succ fuel ih =>
    cases step : r.next with
    | mk result after =>
      cases result with
      | none =>
        simp only [drain, step]
        exact ⟨_, rfl⟩
      | some entry =>
        obtain ⟨skipped, base, off, record⟩ := next_some mapped step
        have within : after.off ≤ _ := off ▸ advance_inside record
        have room := drain_inside base within fuel
        simp only [drain, step, List.length_cons, Nat.succ_mul] at full off ⊢
        obtain rfl : skipped = 0 := by
          by_contra some
          have more : recordBytes ≤ skipped * recordBytes :=
            Nat.le_mul_of_pos_left _ (Nat.pos_of_ne_zero some)
          omega
        obtain ⟨rest, behind⟩ := ih base within (by rw [Nat.succ_mul]; omega)
        rw [Nat.zero_mul, Nat.add_zero] at record
        exact ⟨rest, by rw [record, behind]; simp [entriesBytes]⟩

section ReadFile

variable {data : List UInt8}

/-- A new reader in front of the first record of a file. -/
def atStart (data : List UInt8) : JournalReader :=
  { base := some (journalHeader ++ data), off := journalHeaderBytes }

theorem readFile_header : readFile (some (journalHeader ++ data)) =
    { opened := true
      entries := (drain (journalHeaderBytes + data.length + 1) (atStart data)).1
      reader := (drain (journalHeaderBytes + data.length + 1) (atStart data)).2 } := by
  have long : ¬ (journalHeader ++ data).length < journalHeaderBytes := by
    simp [journalHeader, journalMagic, journalHeaderBytes]
  have magic : (journalHeader ++ data).take 4 = journalMagic := rfl
  have version : word32At (journalHeader ++ data) 4 = journalVersion := by
    rw [journalHeader, List.append_assoc, word32At_append (by decide)]
    exact word32At_here journalVersion
  have opened : openFile {} (some (journalHeader ++ data)) = (atStart data, true) := by
    simp only [openFile, close, if_neg long, magic, version, ne_eq, not_true, if_false, atStart]
  have size : (journalHeader ++ data).length = journalHeaderBytes + data.length :=
    List.length_append
  simp only [readFile, opened, Option.getD_some, size]

/-- A file too short for a header is refused. -/
theorem readFile_torn_header {file : List UInt8} (short : file.length < journalHeaderBytes) :
    (readFile (some file)).opened = false := by
  simp only [readFile, openFile, if_pos short]

/-- Whole records behind the header are handed out; what follows them is read from there. -/
theorem readFile_entries (ahead : data = entriesBytes entries ++ rest) :
    ∃ fuel, readFile (some (journalHeader ++ data)) =
      { opened := true
        entries := entries ++ (drain (fuel + 1) ((atStart data).advanced entries.length)).1
        reader := (drain (fuel + 1) ((atStart data).advanced entries.length)).2 } := by
  have front : (journalHeader ++ data).drop journalHeaderBytes = entriesBytes entries ++ rest := by
    rw [List.drop_left' (show journalHeader.length = journalHeaderBytes from rfl), ahead]
  have count : entries.length ≤ data.length := by
    have size := congrArg List.length ahead
    rw [List.length_append, length_entriesBytes] at size
    have more : entries.length ≤ entries.length * recordBytes :=
      Nat.le_mul_of_pos_right _ (by decide)
    omega
  obtain ⟨fuel, enough⟩ : ∃ fuel, journalHeaderBytes + data.length + 1 =
      entries.length + (fuel + 1) := ⟨journalHeaderBytes + data.length - entries.length, by omega⟩
  have drained := drain_entries (r := atStart data) rfl front (fuel + 1)
  exact ⟨fuel, by rw [readFile_header, enough, drained]⟩

theorem advanced_end (ahead : data = entriesBytes entries ++ rest) :
    ((atStart data).advanced entries.length).off + rest.length =
      (journalHeader ++ data).length := by
  have size := congrArg List.length ahead
  have header : journalHeader.length = journalHeaderBytes := rfl
  rw [List.length_append, length_entriesBytes] at size
  simp only [advanced, atStart, List.length_append]
  omega

/-- A file of whole records is read to its end without an error. -/
theorem readFile_whole (entries : List JournalEntry) :
    readFile (some (journalHeader ++ entriesBytes entries)) =
      { opened := true
        entries
        reader := (atStart (entriesBytes entries)).advanced entries.length } := by
  have ahead := (List.append_nil (entriesBytes entries)).symm
  obtain ⟨fuel, read⟩ := readFile_entries ahead
  have stopped : ((atStart (entriesBytes entries)).advanced entries.length).next =
      (none, (atStart (entriesBytes entries)).advanced entries.length) :=
    scan_end (advanced_end ahead) _
  rw [read, drain, stopped]
  simp

/-- Less than a record behind the whole ones adds nothing. -/
theorem readFile_short (ahead : data = entriesBytes entries ++ rest)
    (short : rest.length < recordBytes) :
    (readFile (some (journalHeader ++ data))).entries = entries := by
  obtain ⟨fuel, read⟩ := readFile_entries ahead
  have size := advanced_end ahead
  have nothing : ((atStart data).advanced entries.length).next.1 = none :=
    scan_short (by omega) _
  rw [read, drain]
  cases step : ((atStart data).advanced entries.length).next with
  | mk result after =>
    rw [step] at nothing
    cases nothing
    simp

/-- A file that holds less than one record more than are handed out starts with these. -/
theorem readFile_full (full : data.length <
      ((readFile (some (journalHeader ++ data))).entries.length + 1) * recordBytes) :
    ∃ rest, data = entriesBytes (readFile (some (journalHeader ++ data))).entries ++ rest := by
  have header : journalHeader.length = journalHeaderBytes := rfl
  rw [readFile_header] at full ⊢
  simp only at full
  have room : (journalHeader ++ data).length < (atStart data).off +
      ((drain (journalHeaderBytes + data.length + 1) (atStart data)).1.length + 1) *
        recordBytes := by
    rw [List.length_append, header]
    exact Nat.add_lt_add_left full _
  obtain ⟨rest, read⟩ := drain_full rfl (by simp only [atStart, List.length_append]; omega) room
  have front : (journalHeader ++ data).drop journalHeaderBytes = data := List.drop_left' header
  exact ⟨rest, front.symm.trans read⟩

end ReadFile

end JournalReader
end FeedHandler
