import FeedHandler.Journal.CorruptRecords

/-! What the readers of whole journals take for one. The semantic checksum and the event
store answer by the number of checksum failures alone; a file that ends inside the header
of a record raises an error of the reader but adds no failure. -/
namespace FeedHandler

open LittleEndian

theorem memoryBytes_eq (width value : Nat) : memoryBytes width value = toBytes width value := by
  induction width generalizing value with
  | zero => rfl
  | succ width ih =>
    have shifted : ∀ i, value >>> (8 * (i + 1)) = (value / 256) >>> (8 * i) := by
      intro i
      rw [Nat.mul_succ, Nat.add_comm, Nat.shiftRight_add, Nat.shiftRight_eq_div_pow value 8]
    rw [toBytes, ← ih, memoryBytes, List.range_succ_eq_map, List.map_cons, List.map_map]
    simp only [Function.comp_def, shifted]
    rfl

/-- `update_crc_from_book_event` on an event that has been copied out of a record. -/
def updateCrcFromImage (crc : UInt32) (image : EventImage) : UInt32 :=
  let crc := crc32Update crc (image.val.take 1)
  let crc := crc32Update crc ((image.val.drop 1).take 1)
  let crc := crc32Update crc ((image.val.drop 8).take 8)
  let crc := crc32Update crc ((image.val.drop 16).take 8)
  let crc := crc32Update crc ((image.val.drop 32).take 8)
  let crc := crc32Update crc ((image.val.drop 40).take 8)
  let crc := crc32Update crc ((image.val.drop 64).take 4)
  crc32Update crc ((image.val.drop 68).take 4)

/-- The bytes of an event object are hashed field by field. -/
theorem updateCrcFromImage_image (crc : UInt32) (o : EventObject) :
    updateCrcFromImage crc o.image = updateCrcFromBookEvent crc o.event := by
  have skip : ∀ {bytes rest : List UInt8} {offset n : Nat}, bytes.length ≤ offset →
      ((bytes ++ rest).drop offset).take n = (rest.drop (offset - bytes.length)).take n := by
    intro bytes rest offset n behind
    rw [BigEndian.drop_behind behind]
  have here : ∀ {bytes rest : List UInt8} {n : Nat}, bytes.length = n →
      ((bytes ++ rest).drop 0).take n = bytes := fun long => List.take_left' long
  have first : o.image.val.take 1 = [o.event.venue.code] := rfl
  simp only [updateCrcFromImage, updateCrcFromBookEvent, first, memoryBytes_eq]
  simp only [EventObject.image, EventObject.bytes, skip, here, length_word64, length_word32,
    Vector.length_toList, List.length_singleton, Nat.reduceLeDiff, Nat.reduceSub, Nat.sub_self,
    le_refl]
  rfl

structure JournalSemanticStats where
  records : Nat := 0
  crc : UInt32 := 0
  crcFailures : Nat := 0
  deriving DecidableEq, Repr

/-- `compute_semantic_crc`: the answer and what is stored through the reference. -/
def computeSemanticCrc (file : Option (List UInt8)) (out : JournalSemanticStats) :
    Bool × JournalSemanticStats :=
  let read := JournalReader.readFile file
  if read.opened then
    let out : JournalSemanticStats :=
      { records := read.entries.length
        crc := read.entries.foldl (fun crc entry => updateCrcFromImage crc entry.image) 0
        crcFailures := read.reader.stats.crcFailures }
    (out.crcFailures == 0, out)
  else (false, out)

structure EventStoreStats where
  records : Nat := 0
  crc : UInt32 := 0
  firstExchangeTsNs : UInt64 := 0
  lastExchangeTsNs : UInt64 := 0
  crcFailures : Nat := 0
  deriving DecidableEq, Repr

def EventStoreStats.update (stats : EventStoreStats) (image : EventImage) : EventStoreStats :=
  let exchangeTsNs := word64At image.val 16
  { stats with
    crc := updateCrcFromImage stats.crc image
    firstExchangeTsNs := if stats.records = 0 then exchangeTsNs else stats.firstExchangeTsNs
    lastExchangeTsNs := exchangeTsNs
    records := stats.records + 1 }

/-- The event with the ingest time of its record. -/
def JournalEntry.stamped (entry : JournalEntry) : EventImage :=
  ⟨entry.image.val.take 24 ++ (word64 entry.ingestTsNs ++ entry.image.val.drop 32), by
    have size := entry.image.property
    simp only [List.length_append, List.length_take, List.length_drop, length_word64, size,
      eventBytes]
    decide⟩

/-- What `EventStore::replay` answers, hands to the consumer and counts. -/
structure Replayed where
  answer : Bool
  events : List EventImage := []
  stats : EventStoreStats := {}

def EventStore.replay (file : Option (List UInt8)) : Replayed :=
  let read := JournalReader.readFile file
  if read.opened then
    let events := read.entries.map JournalEntry.stamped
    let stats : EventStoreStats :=
      { events.foldl EventStoreStats.update {} with
        crcFailures := read.reader.stats.crcFailures }
    { answer := stats.crcFailures == 0, events, stats }
  else { answer := false }

/-- The file is a header and whole records with right length fields and checksums. -/
def CompleteJournal (file : List UInt8) : Prop :=
  ∃ entries, file = journalHeader ++ entriesBytes entries

/-- Behind such a file stand a few bytes more, fewer than the header of a record has. -/
def StrayTail (file : List UInt8) : Prop :=
  ∃ entries stray, file = journalHeader ++ (entriesBytes entries ++ stray) ∧
    0 < stray.length ∧ stray.length < recordHeaderBytes

theorem not_complete_of_stray {file : List UInt8} (tail : StrayTail file) :
    ¬ CompleteJournal file := by
  rintro ⟨all, rfl⟩
  obtain ⟨entries, stray, same, some_bytes, few⟩ := tail
  have size := congrArg List.length same
  simp only [List.length_append, length_entriesBytes, recordBytes, recordHeaderBytes,
    eventBytes] at size few
  omega

/-- A file with a good header is opened. -/
theorem JournalReader.readFile_opened {file : List UInt8}
    (opened : (readFile (some file)).opened = true) : ∃ data, file = journalHeader ++ data := by
  simp only [readFile, openFile] at opened
  split at opened
  · contradiction
  · split at opened
    · contradiction
    · split at opened
      · contradiction
      · next long magic version =>
        have four : 4 + 4 ≤ file.length := by
          rw [journalHeaderBytes] at long
          omega
        have word := word32_word32At four
        rw [not_ne_iff.mp version] at word
        refine ⟨file.drop 8, ?_⟩
        rw [journalHeader, List.append_assoc, ← word, ← not_ne_iff.mp magic,
          List.take_append_drop]

theorem StoredRecord.stored_entry {record : StoredRecord} (framed : record.Framed)
    (intact : record.intact = true) : record.entry.stored = record := by
  obtain ⟨seq, ts, len, crc, image⟩ := record
  have sum := of_decide_eq_true intact
  simp only at sum
  simp only [StoredRecord.Framed] at framed
  rw [JournalEntry.stored, StoredRecord.entry, framed, sum]

/-- A read without a checksum failure has met good records and less than a record header
behind them. -/
theorem JournalReader.read_without_failures (file : List UInt8) :
    ((readFile (some file)).opened = true ∧
        (readFile (some file)).reader.stats.crcFailures = 0) ↔
      ∃ entries stray, file = journalHeader ++ (entriesBytes entries ++ stray) ∧
        stray.length < recordHeaderBytes := by
  constructor
  · rintro ⟨opened, clean⟩
    obtain ⟨data, rfl⟩ := readFile_opened opened
    obtain ⟨records, rest, rfl, framed, unframed⟩ := exists_records data
    rw [readFile_records framed unframed, stopAt] at clean
    have counted := foldl_past_crcFailures (atStart (recordsBytes records ++ rest)) records
    split at clean
    · next short =>
      have none_bad : records.countP (!·.intact) = 0 := by
        split at clean <;> simp only [setError] at clean <;> omega
      have intact : ∀ record ∈ records, record.intact = true := by
        simpa [List.countP_eq_zero] using none_bad
      refine ⟨records.map StoredRecord.entry, rest, ?_, short⟩
      rw [← recordsBytes_stored, List.map_map]
      congr 3
      refine (List.map_id records).symm.trans (List.map_congr_left fun record held => ?_)
      exact (StoredRecord.stored_entry (framed record held) (intact record held)).symm
    · simp only [setError] at clean
      omega
  · rintro ⟨entries, stray, rfl, few⟩
    have framed : ∀ record ∈ entries.map JournalEntry.stored, record.Framed := by
      intro record held
      obtain ⟨entry, _, rfl⟩ := List.mem_map.mp held
      rfl
    have short : stray.length < recordBytes := Nat.lt_of_lt_of_le few (by decide)
    have good : (entries.map JournalEntry.stored).countP (!·.intact) = 0 := by
      simp [List.countP_eq_zero, JournalEntry.stored_intact]
    have counted := foldl_past_crcFailures (atStart (entriesBytes entries ++ stray))
      (entries.map JournalEntry.stored)
    rw [good] at counted
    rw [← recordsBytes_stored, readFile_records framed (unframed_of_short short), stopAt, if_pos few,
      recordsBytes_stored]
    refine ⟨rfl, ?_⟩
    split <;> exact counted

theorem complete_or_stray {file : List UInt8} :
    (CompleteJournal file ∨ StrayTail file) ↔
      ∃ entries stray, file = journalHeader ++ (entriesBytes entries ++ stray) ∧
        stray.length < recordHeaderBytes := by
  constructor
  · rintro (⟨entries, rfl⟩ | ⟨entries, stray, same, _, few⟩)
    · exact ⟨entries, [], by rw [List.append_nil], by decide⟩
    · exact ⟨entries, stray, same, few⟩
  · rintro ⟨entries, stray, same, few⟩
    cases stray with
    | nil => exact .inl ⟨entries, by rwa [List.append_nil] at same⟩
    | cons byte stray => exact .inr ⟨entries, byte :: stray, same, Nat.succ_pos _, few⟩

/-- The semantic checksum accepts complete journals and those with a stray tail. -/
theorem computeSemanticCrc_accepts (file : List UInt8) (out : JournalSemanticStats) :
    (computeSemanticCrc (some file) out).1 = true ↔ CompleteJournal file ∨ StrayTail file := by
  rw [complete_or_stray, ← JournalReader.read_without_failures, computeSemanticCrc]
  cases (JournalReader.readFile (some file)).opened <;> simp

/-- The event store accepts the same files. -/
theorem EventStore.replay_accepts (file : List UInt8) :
    (EventStore.replay (some file)).answer = true ↔ CompleteJournal file ∨ StrayTail file := by
  rw [complete_or_stray, ← JournalReader.read_without_failures, EventStore.replay]
  cases (JournalReader.readFile (some file)).opened <;> simp

/-- What is accepted is complete exactly if the file has no stray tail. -/
theorem accepted_complete_iff (file : List UInt8) (out : JournalSemanticStats) :
    (((computeSemanticCrc (some file) out).1 = true → CompleteJournal file) ∧
        ((EventStore.replay (some file)).answer = true → CompleteJournal file)) ↔
      ¬ StrayTail file := by
  rw [computeSemanticCrc_accepts, EventStore.replay_accepts, and_self]
  constructor
  · exact fun complete tail => not_complete_of_stray tail (complete (.inr tail))
  · rintro no_tail (complete | tail)
    · exact complete
    · exact absurd tail no_tail

/-- A journal of one record that has been cut behind the first byte of the second one: both
answer true. -/
theorem stray_byte_accepted :
    let file := journalHeader ++
      (JournalEntry.bytes ⟨1, 70, EventObject.image { event := {} }⟩ ++ [2])
    (computeSemanticCrc (some file) {}).1 = true ∧ (EventStore.replay (some file)).answer = true ∧
      ¬ CompleteJournal file := by
  refine ⟨by decide +kernel, by decide +kernel, ?_⟩
  exact not_complete_of_stray
    ⟨[⟨1, 70, EventObject.image { event := {} }⟩], [2], by simp [entriesBytes], by decide, by decide⟩

end FeedHandler
