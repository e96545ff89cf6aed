import FeedHandler.Journal.JournalReader

/-! Reading a file whatever its records hold. Behind the header stand records with a right
length field, and then something that the reader does not take for one. Of the records,
those whose checksum is wrong are skipped and counted, and all others are handed out. -/
namespace FeedHandler

open LittleEndian

def recordsBytes (records : List StoredRecord) : List UInt8 := records.flatMap StoredRecord.bytes

theorem recordsBytes_cons (record : StoredRecord) (records : List StoredRecord) :
    recordsBytes (record :: records) = record.bytes ++ recordsBytes records := List.flatMap_cons

theorem recordsBytes_append (xs ys : List StoredRecord) :
    recordsBytes (xs ++ ys) = recordsBytes xs ++ recordsBytes ys := List.flatMap_append

theorem length_recordsBytes (records : List StoredRecord) :
    (recordsBytes records).length = records.length * recordBytes := by
  induction records with
  | nil => simp [recordsBytes]
  | cons record rest ih =>
    simp only [recordsBytes, List.flatMap_cons, List.length_append, List.length_cons,
      StoredRecord.length_bytes] at ih ⊢
    rw [ih, Nat.succ_mul, Nat.add_comm]

theorem recordsBytes_stored (entries : List JournalEntry) :
    recordsBytes (entries.map JournalEntry.stored) = entriesBytes entries := by
  simp only [recordsBytes, entriesBytes, List.flatMap_map, JournalEntry.bytes_stored]

/-- The length field is right. -/
def StoredRecord.Framed (record : StoredRecord) : Prop := record.payloadLen = journalPayloadLenV1

/-- No whole record with a right length field is in front. -/
def Unframed (rest : List UInt8) : Prop :=
  ¬ (word32At rest 16 = journalPayloadLenV1 ∧ recordBytes ≤ rest.length)

theorem unframed_of_short {rest : List UInt8} (short : rest.length < recordBytes) :
    Unframed rest := fun whole => absurd whole.2 (not_le.mpr short)

/-- Every string is records with right length fields and something that is none. -/
theorem exists_records (data : List UInt8) :
    ∃ records rest, data = recordsBytes records ++ rest ∧
      (∀ record ∈ records, record.Framed) ∧ Unframed rest := by
  by_cases whole : word32At data 16 = journalPayloadLenV1 ∧ recordBytes ≤ data.length
  · obtain ⟨framed, fits⟩ := whole
    obtain ⟨records, rest, behind, others, ends⟩ := exists_records (data.drop recordBytes)
    have front := StoredRecord.bytes_ofRecord fits
    refine ⟨.ofRecord data fits :: records, rest, ?_, ?_, ends⟩
    · rw [recordsBytes_cons, List.append_assoc, ← behind, front]
    · intro record held
      cases held with
      | head => exact framed
      | tail _ held => exact others record held
  · exact ⟨[], data, rfl, by simp, whole⟩
termination_by data.length
decreasing_by
  have positive : 0 < recordBytes := by decide
  rw [List.length_drop]
  omega

namespace JournalReader

variable {base rest : List UInt8} {r : JournalReader}

/-- The reader after it has met something that is no record. -/
def stopAt (r : JournalReader) (rest : List UInt8) : JournalReader :=
  if rest.length < recordHeaderBytes then
    if rest = [] then r else r.setError "unexpected_eof" r.off
  else
    { { r with stats := { r.stats with crcFailures := r.stats.crcFailures + 1 } }.setError
        (if word32At rest 16 ≠ journalPayloadLenV1 then "record_size" else "unexpected_eof")
        r.off with
      off := r.off + rest.length }

theorem scan_stop (inside : r.off ≤ base.length) (unframed : Unframed (base.drop r.off))
    (fuel : Nat) : scan base (fuel + 1) r = (none, r.stopAt (base.drop r.off)) := by
  have size : r.off + (base.drop r.off).length = base.length := by
    rw [List.length_drop]
    omega
  rw [scan, stopAt, size]
  by_cases header : r.off + recordHeaderBytes ≤ base.length
  · have partial_record : ¬ (word32At (base.drop r.off) 16 = journalPayloadLenV1 ∧
        r.off + recordBytes ≤ base.length) := by
      rintro ⟨len, fits⟩
      exact unframed ⟨len, by omega⟩
    rw [if_pos header, if_neg (show ¬ (base.drop r.off).length < recordHeaderBytes by omega)]
    simp only [dif_neg partial_record]
  · rw [if_neg header, if_pos (show (base.drop r.off).length < recordHeaderBytes by omega)]
    by_cases done : r.off = base.length
    · rw [if_neg (not_not.mpr done), if_pos (List.drop_eq_nil_of_le (by omega))]
    · have more : base.drop r.off ≠ [] := by
        rw [ne_eq, List.drop_eq_nil_iff]
        omega
      rw [if_pos done, if_neg more]

/-- Fuel for one turn more than there is room for records changes nothing. -/
theorem scan_fuel {fuel : Nat} (inside : r.off ≤ base.length)
    (enough : base.length < r.off + (fuel + 1) * recordBytes) :
    scan base (fuel + 2) r = scan base (fuel + 1) r := by
  induction fuel generalizing r with
  | zero =>
    have unframed : Unframed (base.drop r.off) := by
      apply unframed_of_short
      rw [List.length_drop]
      omega
    rw [scan_stop inside unframed, scan_stop inside unframed]
  | succ fuel ih =>
    by_cases framed : Unframed (base.drop r.off)
    · rw [scan_stop inside framed, scan_stop inside framed]
    · obtain ⟨len, fits⟩ := not_not.mp framed
      have ahead := (StoredRecord.bytes_ofRecord fits).symm
      have behind := fits_of_ahead ahead
      rw [scan_record ahead len, scan_record ahead len, ih]
      · rwa [past_off]
      · rw [past_off]
        rw [Nat.succ_mul] at enough
        omega

/-- A record with a right length field is handed out or left behind. -/
theorem next_record (mapped : r.base = some base) {record : StoredRecord}
    (ahead : base.drop r.off = record.bytes ++ rest) (framed : record.Framed) :
    r.next = if record.intact then (some record.entry, r.past record)
      else (r.past record).next := by
  have fits := fits_of_ahead ahead
  obtain ⟨fuel, long⟩ : ∃ fuel, base.length = fuel + 2 := by
    refine ⟨base.length - 2, ?_⟩
    simp only [recordBytes, recordHeaderBytes, eventBytes] at fits
    omega
  have further : scan base (fuel + 1) (r.past record) = scan base (fuel + 2) (r.past record) := by
    apply (scan_fuel _ _).symm
    · rwa [past_off]
    · have rows : fuel + 1 ≤ (fuel + 1) * recordBytes := Nat.le_mul_of_pos_right _ (by decide)
      have positive : 2 ≤ recordBytes := by decide
      rw [past_off]
      omega
  rw [next, next, past_base, mapped]
  simp only [long]
  rw [scan_record ahead framed, further]

theorem next_stop (mapped : r.base = some base) (ahead : base.drop r.off = rest)
    (inside : r.off ≤ base.length) (some_bytes : base ≠ []) (unframed : Unframed rest) :
    r.next = (none, r.stopAt rest) := by
  obtain ⟨fuel, long⟩ := Nat.exists_eq_add_one.mpr (List.length_pos_iff.mpr some_bytes)
  rw [next, mapped]
  simp only [long]
  subst ahead
  exact scan_stop inside unframed fuel

/-- Run lemma: of the records in front of the reader the intact ones are handed out. -/
theorem drain_records (mapped : r.base = some base) {records : List StoredRecord}
    (ahead : base.drop r.off = recordsBytes records ++ rest)
    (framed : ∀ record ∈ records, record.Framed) (fuel : Nat) :
    drain ((records.filter (·.intact)).length + (fuel + 1)) r =
      ((records.filter (·.intact)).map StoredRecord.entry ++
          (drain (fuel + 1) (records.foldl past r)).1,
        (drain (fuel + 1) (records.foldl past r)).2) := by
  induction records generalizing r with
  | nil => simp
  | cons record records ih =>
    have first : base.drop r.off = record.bytes ++ (recordsBytes records ++ rest) := by
      rw [ahead, recordsBytes_cons, List.append_assoc]
    have behind : base.drop (r.past record).off = recordsBytes records ++ rest := by
      rw [past_off, ← List.drop_drop, first, List.drop_left' record.length_bytes]
    have step := next_record mapped first (framed record List.mem_cons_self)
    have following := ih (r := r.past record) ((past_base r record).trans mapped) behind
      (fun other held => framed other (List.mem_cons_of_mem _ held))
    cases good : record.intact with
    | true =>
      simp only [good, if_true] at step
      simp only [List.filter_cons, good, if_true, List.length_cons, List.map_cons, List.foldl_cons]
      rw [Nat.add_right_comm, drain, step]
      simp only [following, List.cons_append]
    | false =>
      simp only [good, Bool.false_eq_true, if_false] at step
      simp only [List.filter_cons, good, Bool.false_eq_true, if_false, List.foldl_cons]
      rw [← following, ← Nat.add_assoc, drain, drain, step]

section Passed

variable (r : JournalReader) (records : List StoredRecord)

theorem foldl_past_base : (records.foldl past r).base = r.base := by
  induction records generalizing r with
  | nil => rfl
  | cons record records ih => rw [List.foldl_cons, ih, past_base]

theorem foldl_past_off : (records.foldl past r).off = r.off + (recordsBytes records).length := by
  rw [length_recordsBytes]
  induction records generalizing r with
  | nil => simp
  | cons record records ih =>
    rw [List.foldl_cons, ih, past_off, List.length_cons, Nat.succ_mul]
    omega

theorem foldl_past_recordsRead : (records.foldl past r).stats.recordsRead =
    r.stats.recordsRead + records.countP (·.intact) := by
  induction records generalizing r with
  | nil => rfl
  | cons record records ih =>
    rw [List.foldl_cons, ih, List.countP_cons, past]
    cases record.intact with
    | true =>
      simp only [if_true]
      omega
    | false => simp [setError]

theorem foldl_past_crcFailures : (records.foldl past r).stats.crcFailures =
    r.stats.crcFailures + records.countP (!·.intact) := by
  induction records generalizing r with
  | nil => rfl
  | cons record records ih =>
    rw [List.foldl_cons, ih, List.countP_cons, past]
    cases record.intact with
    | true => simp
    | false =>
      simp only [setError, Bool.false_eq_true, if_false, Bool.not_false, if_true]
      omega

theorem foldl_past_errorReason : (records.foldl past r).errorReason.isSome =
    (r.errorReason.isSome || records.any (!·.intact)) := by
  induction records generalizing r with
  | nil => simp
  | cons record records ih =>
    rw [List.foldl_cons, ih, List.any_cons, past]
    cases record.intact <;> simp [setError]

end Passed

/-- What a consumer sees of any file with a good header. -/
theorem readFile_records {records : List StoredRecord} (framed : ∀ record ∈ records, record.Framed)
    {rest : List UInt8} (unframed : Unframed rest) :
    readFile (some (journalHeader ++ (recordsBytes records ++ rest))) =
      { opened := true
        entries := (records.filter (·.intact)).map StoredRecord.entry
        reader := (records.foldl past (atStart (recordsBytes records ++ rest))).stopAt rest } := by
  have header : journalHeader.length = journalHeaderBytes := rfl
  have front : (journalHeader ++ (recordsBytes records ++ rest)).drop journalHeaderBytes =
      recordsBytes records ++ rest := List.drop_left' header
  obtain ⟨fuel, enough⟩ : ∃ fuel, journalHeaderBytes + (recordsBytes records ++ rest).length + 1 =
      (records.filter (·.intact)).length + (fuel + 1) := by
    have kept := List.length_filter_le (·.intact) records
    have room : records.length ≤ records.length * recordBytes :=
      Nat.le_mul_of_pos_right _ (by decide)
    have size := length_recordsBytes records
    refine ⟨journalHeaderBytes + (recordsBytes records ++ rest).length -
      (records.filter (·.intact)).length, ?_⟩
    rw [List.length_append]
    omega
  have drained := drain_records (r := atStart (recordsBytes records ++ rest)) rfl front framed fuel
  have off := foldl_past_off (atStart (recordsBytes records ++ rest)) records
  have stopped := next_stop (foldl_past_base (atStart (recordsBytes records ++ rest)) records)
    (by rw [off, atStart, ← List.drop_drop, front, List.drop_left]) (by
      rw [off, atStart, List.length_append, List.length_append, header]
      simp only
      omega) (List.append_ne_nil_of_left_ne_nil (by decide) _) unframed
  rw [readFile_header, enough, drained, drain, stopped]
  simp

end JournalReader

/-- A record whose length field is right and whose checksum is not that of its payload. -/
structure CorruptRecord where
  record : StoredRecord
  framed : record.Framed
  corrupt : record.intact = false

/-- A place in a journal: the entry that was written there, or what it was altered to. -/
inductive JournalPlace where
  | kept (entry : JournalEntry)
  | altered (corrupt : CorruptRecord)

namespace JournalPlace

def stored : JournalPlace → StoredRecord
  | .kept entry => entry.stored
  | .altered corrupt => corrupt.record

def kept? : JournalPlace → Option JournalEntry
  | .kept entry => some entry
  | .altered _ => none

def isAltered : JournalPlace → Bool
  | .kept _ => false
  | .altered _ => true

theorem framed (place : JournalPlace) : place.stored.Framed := by
  cases place with
  | kept entry => rfl
  | altered corrupt => exact corrupt.framed

theorem intact_stored (place : JournalPlace) : place.stored.intact = !place.isAltered := by
  cases place with
  | kept entry => exact entry.stored_intact
  | altered corrupt => exact corrupt.corrupt

theorem delivered (places : List JournalPlace) :
    ((places.map stored).filter (·.intact)).map StoredRecord.entry = places.filterMap kept? := by
  induction places with
  | nil => rfl
  | cons place rest ih =>
    cases place with
    | kept entry =>
      simp only [List.map_cons, List.filter_cons, stored, entry.stored_intact, if_true, ih]
      rfl
    | altered corrupt =>
      simp only [List.map_cons, List.filter_cons, stored, corrupt.corrupt, Bool.false_eq_true,
        if_false, ih]
      rfl

theorem countP_kept (places : List JournalPlace) :
    places.countP (!·.isAltered) = (places.filterMap kept?).length := by
  rw [List.length_filterMap_eq_countP]
  congr 1
  funext place
  cases place <;> rfl

end JournalPlace

/-- Corruption is isolated: whichever records are altered, exactly the others are delivered,
in their order, and the counters and the error tell how many were not. -/
theorem corruption_isolated (places : List JournalPlace) :
    let read := JournalReader.readFile
      (some (journalHeader ++ recordsBytes (places.map JournalPlace.stored)))
    read.opened = true ∧ read.entries = places.filterMap JournalPlace.kept? ∧
      read.reader.stats.crcFailures = places.countP JournalPlace.isAltered ∧
      read.reader.stats.recordsRead = (places.filterMap JournalPlace.kept?).length ∧
      (read.reader.errorReason.isSome = true ↔ ∃ place ∈ places, place.isAltered = true) := by
  intro read
  have framed : ∀ record ∈ places.map JournalPlace.stored, record.Framed := by
    intro record held
    obtain ⟨place, _, rfl⟩ := List.mem_map.mp held
    exact place.framed
  have all := JournalReader.readFile_records framed
    (unframed_of_short (show ([] : List UInt8).length < recordBytes by decide))
  rw [List.append_nil] at all
  have verdicts : ∀ place : JournalPlace, (!place.stored.intact) = place.isAltered := by
    intro place
    rw [place.intact_stored, Bool.not_not]
  have reader : read.reader = (places.map JournalPlace.stored).foldl JournalReader.past
      (.atStart (recordsBytes (places.map JournalPlace.stored))) := by
    simp only [read, all, JournalReader.stopAt]
    rfl
  refine ⟨?_, ?_, ?_, ?_, ?_⟩
  · simp only [read, all]
  · simp only [read, all, JournalPlace.delivered]
  · rw [reader, JournalReader.foldl_past_crcFailures, List.countP_map]
    simp only [Function.comp_def, verdicts, JournalReader.atStart, Nat.zero_add]
  · rw [reader, JournalReader.foldl_past_recordsRead, List.countP_map, ← JournalPlace.countP_kept]
    simp only [Function.comp_def, JournalPlace.intact_stored, JournalReader.atStart, Nat.zero_add]
  · rw [reader, JournalReader.foldl_past_errorReason, List.any_map]
    simp only [Function.comp_def, verdicts, JournalReader.atStart, Option.isSome_none,
      Bool.false_or, List.any_eq_true]

end FeedHandler
