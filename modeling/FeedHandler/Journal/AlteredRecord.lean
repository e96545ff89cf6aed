import FeedHandler.Core.Crc32
import FeedHandler.Journal.CorruptRecords

/-! A journal with one altered record. The length field ends the reading and the checksum
covers the payload, so a burst there is never delivered; the number and the ingest time of
a record are under no checksum, and a burst over the end of the checksum and the start of
the payload can change both to match. -/
namespace FeedHandler

/-- A burst behind a common front is a burst of what follows it. -/
theorem Burst.behind {front x y : List UInt8} (burst : Burst (front ++ x) (front ++ y)) :
    Burst x y := by
  obtain ⟨pre, u, v, post, before, after, long, short⟩ := burst
  have cut : ∀ {z w}, dataBits (front ++ z) = pre ++ (w ++ post) →
      dataBits z = pre.drop (dataBits front).length ++
        (w.drop ((dataBits front).length - pre.length) ++
          post.drop ((dataBits front).length - pre.length - w.length)) := by
    intro z w spelled
    have dropped := congrArg (List.drop (dataBits front).length) spelled
    rwa [dataBits_append, List.drop_left, List.drop_append, List.drop_append] at dropped
  refine ⟨_, _, _, _, cut before, long ▸ cut after, ?_, ?_⟩
  · rw [List.length_drop, List.length_drop, long]
  · rw [List.length_drop]
    omega

/-- The header of a record. -/
def StoredRecord.header (record : StoredRecord) : List UInt8 :=
  LittleEndian.word64 record.monotonicSeq ++ (LittleEndian.word64 record.ingestTsNs ++
  (LittleEndian.word32 record.payloadLen ++ LittleEndian.word32 record.crc32))

theorem StoredRecord.bytes_header (record : StoredRecord) :
    record.bytes = record.header ++ record.image.val := by
  simp only [bytes, header, List.append_assoc]

/-- What the reader delivers of a journal in which one record has been altered. -/
theorem read_altered (before after : List JournalEntry) (altered : StoredRecord) :
    (JournalReader.readFile (some (journalHeader ++
        (entriesBytes before ++ (altered.bytes ++ entriesBytes after))))).entries =
      if altered.payloadLen = journalPayloadLenV1 then
        before ++ ((if altered.intact then [altered.entry] else []) ++ after)
      else before := by
  have stored : ∀ entries : List JournalEntry,
      ∀ record ∈ entries.map JournalEntry.stored, record.Framed := by
    intro entries record held
    obtain ⟨entry, _, rfl⟩ := List.mem_map.mp held
    rfl
  have kept : ∀ entries : List JournalEntry,
      ((entries.map JournalEntry.stored).filter (·.intact)).map StoredRecord.entry = entries := by
    intro entries
    induction entries with
    | nil => rfl
    | cons entry rest ih =>
      simp only [List.map_cons, List.filter_cons, entry.stored_intact, if_true, ih]
      rfl
  by_cases framed : altered.payloadLen = journalPayloadLenV1
  · have whole : entriesBytes before ++ (altered.bytes ++ entriesBytes after) =
        recordsBytes (before.map JournalEntry.stored ++
          altered :: after.map JournalEntry.stored) ++ [] := by
      rw [recordsBytes_append, recordsBytes_cons, recordsBytes_stored, recordsBytes_stored,
        List.append_nil]
    have all : ∀ record ∈ before.map JournalEntry.stored ++
        altered :: after.map JournalEntry.stored, record.Framed := by
      intro record held
      rcases List.mem_append.mp held with early | late
      · exact stored before record early
      · cases late with
        | head => exact framed
        | tail _ late => exact stored after record late
    rw [whole, JournalReader.readFile_records all (unframed_of_short (by decide)), if_pos framed,
      List.filter_append, List.map_append, kept, List.filter_cons]
    cases altered.intact with
    | true => simp only [if_true, List.map_cons, kept, List.singleton_append]
    | false => simp only [Bool.false_eq_true, if_false, kept, List.nil_append]
  · have unframed : Unframed (altered.bytes ++ entriesBytes after) := by
      rintro ⟨len, _⟩
      rw [StoredRecord.payloadLen_at] at len
      exact framed len
    rw [← recordsBytes_stored before, JournalReader.readFile_records (stored before) unframed,
      if_neg framed]
    exact kept before

/-- The alteration shows in what the reader checks: it changes the length field, or it
keeps to the checksum alone or to the payload alone. -/
def Covered (entry : JournalEntry) (altered : StoredRecord) : Prop :=
  altered.payloadLen ≠ journalPayloadLenV1 ∨
    altered.monotonicSeq = entry.monotonicSeq ∧ altered.ingestTsNs = entry.ingestTsNs ∧
      (altered.crc32 = entry.stored.crc32 ∨ altered.image = entry.image)

/-- An altered record that passes the checks of the reader has not been altered in what it
delivers. -/
theorem entry_of_covered {entry : JournalEntry} {altered : StoredRecord}
    (burst : Burst entry.bytes altered.bytes) (covered : Covered entry altered)
    (framed : altered.payloadLen = journalPayloadLenV1) (intact : altered.intact = true) :
    altered.entry = entry := by
  rcases covered with unframed | ⟨seq, ts, covered⟩
  · exact absurd framed unframed
  · have image : altered.image = entry.image := by
      rcases covered with crc | image
      · have header : altered.header = entry.stored.header := by
          simp only [StoredRecord.header, seq, ts, framed, crc, JournalEntry.stored]
        rw [← entry.bytes_stored, StoredRecord.bytes_header, StoredRecord.bytes_header,
          header] at burst
        have same : crc32Update 0 entry.image.val = crc32Update 0 altered.image.val := by
          rw [of_decide_eq_true intact, crc]
          rfl
        exact (Subtype.ext ((crc32Update_burst burst.behind 0).mp same)).symm
      · exact image
    rw [StoredRecord.entry, seq, ts, image]

/-- Whatever burst hits one record of a journal, if it shows in what the reader checks, no
record is delivered that was not written. -/
theorem altered_never_delivered (before after : List JournalEntry) (entry : JournalEntry)
    (altered : StoredRecord) (burst : Burst entry.bytes altered.bytes)
    (covered : Covered entry altered) :
    ∀ delivered ∈ (JournalReader.readFile (some (journalHeader ++
        (entriesBytes before ++ (altered.bytes ++ entriesBytes after))))).entries,
      delivered ∈ before ++ entry :: after := by
  intro delivered held
  rw [read_altered] at held
  split at held
  · next framed =>
    rcases List.mem_append.mp held with early | late
    · exact List.mem_append_left _ early
    · rcases List.mem_append.mp late with altered_held | behind
      · split at altered_held
        · next intact =>
          rw [List.mem_singleton.mp altered_held, entry_of_covered burst covered framed intact]
          exact List.mem_append_right _ List.mem_cons_self
        · cases altered_held
      · exact List.mem_append_right _ (List.mem_cons_of_mem _ behind)
  · exact List.mem_append_left _ held

def blankEntry : JournalEntry := ⟨1, 70, EventObject.image { event := {} }⟩

/-- Four bytes of the payload altered. -/
def payloadBurst : StoredRecord :=
  { blankEntry.stored with image := EventObject.image { event := { qty := 0xFFFFFFFF } } }

theorem payload_burst_not_delivered :
    payloadBurst.bytes ≠ blankEntry.bytes ∧
      ∀ delivered ∈ (JournalReader.readFile (some (journalHeader ++
          (entriesBytes [] ++ (payloadBurst.bytes ++ entriesBytes [blankEntry]))))).entries,
        delivered ∈ [] ++ blankEntry :: [blankEntry] :=
  ⟨by decide +kernel, altered_never_delivered [] [blankEntry] blankEntry payloadBurst
    ⟨(dataBits blankEntry.bytes).take 704, ((dataBits blankEntry.bytes).drop 704).take 32,
      ((dataBits payloadBurst.bytes).drop 704).take 32, (dataBits blankEntry.bytes).drop 736,
      by decide +kernel, by decide +kernel, by decide +kernel, by decide +kernel⟩
    (.inr ⟨rfl, rfl, .inl rfl⟩)⟩

/-- One bit of the number altered. -/
def renumbered : StoredRecord := { blankEntry.stored with monotonicSeq := 3 }

/-- The last 26 bits of the checksum and the first 5 of the payload altered to match. -/
def straddled : StoredRecord :=
  { blankEntry.stored with
    crc32 := blankEntry.stored.crc32 ^^^ 0x57ED2440
    image := ⟨0x16 :: blankEntry.image.val.tail, by decide +kernel⟩ }

/-- Both are delivered as they are, though neither was written. -/
theorem uncovered_bursts_delivered :
    (Burst blankEntry.bytes renumbered.bytes ∧
        (JournalReader.readFile (some (journalHeader ++
          (entriesBytes [] ++ (renumbered.bytes ++ entriesBytes []))))).entries =
            [renumbered.entry] ∧ renumbered.entry ∉ [blankEntry]) ∧
      (Burst blankEntry.bytes straddled.bytes ∧
        (JournalReader.readFile (some (journalHeader ++
          (entriesBytes [] ++ (straddled.bytes ++ entriesBytes []))))).entries =
            [straddled.entry] ∧ straddled.entry ∉ [blankEntry]) := by
  refine ⟨⟨⟨(dataBits blankEntry.bytes).take 1, ((dataBits blankEntry.bytes).drop 1).take 1,
      ((dataBits renumbered.bytes).drop 1).take 1, (dataBits blankEntry.bytes).drop 2,
      by decide +kernel, by decide +kernel, by decide +kernel, by decide +kernel⟩, ?_,
      by decide +kernel⟩,
    ⟨(dataBits blankEntry.bytes).take 166, ((dataBits blankEntry.bytes).drop 166).take 31,
      ((dataBits straddled.bytes).drop 166).take 31, (dataBits blankEntry.bytes).drop 197,
      by decide +kernel, by decide +kernel, by decide +kernel, by decide +kernel⟩, ?_,
      by decide +kernel⟩
  · rw [read_altered]
    decide +kernel
  · rw [read_altered]
    decide +kernel

end FeedHandler
