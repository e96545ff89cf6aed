import FeedHandler.Journal.AcceptedJournals
import FeedHandler.Journal.JournalRoundTrip
import FeedHandler.Journal.NbboRoundTrip

/-! The tape of consolidated quotes: a book journal is read, its events are replayed, and the
quotes that change are recorded in a journal of their own. -/
namespace FeedHandler

open AppendFile

/-- How quotes lie in memory, with whatever the compiler leaves between their fields. -/
structure NbboMemory where
  object : NbboEvent → NbboObject
  event_object : ∀ ev, (object ev).event = ev

def NbboMemory.image (memory : NbboMemory) (ev : NbboEvent) : List UInt8 := (memory.object ev).bytes

/-- What `replay_to_journal` answers, stores through the reference and leaves on the disk. -/
structure NbboTape (Path : Type*) where
  answer : Bool
  stats : NbboJournalPipelineStats := {}
  disk : Disk Path

variable {Path : Type*} [DecidableEq Path]

namespace NbboJournalPipeline

/-- The buffers of the writer that a replay makes. -/
def writerBufferBytes : Nat := 2 ^ 20

/-- `replay_to_journal`. The loop gives the writer its records in the order of the replay's
journal and does nothing else with it. -/
def replayToJournal (memory : NbboMemory) (layout : ProbeLayout UInt64) (os : Os Path)
    (disk : Disk Path) (events : List BookEvent) (outPath : Path) : NbboTape Path :=
  let opened := NbboJournalSession.openFile os
    { writer := { bufferBytes := writerBufferBytes }, disk } outPath
  if opened.2 then
    let replay := NbboReplay.replayToJournal memory.image layout events
    let written := (replay.journal.map memory.object).foldl (NbboJournalSession.append os) opened.1
    { answer := true, stats := replay.stats, disk := (written.close os).disk }
  else { answer := false, disk := opened.1.disk }

end NbboJournalPipeline

/-- The event that the tool makes of a record: the ingest time is that of the record. -/
def JournalEntry.event? (entry : JournalEntry) : Option BookEvent :=
  entry.image.event?.map fun ev => { ev with ingestTsNs := entry.ingestTsNs }

/-- What `nbbo_journal_from_book` exits with, prints and leaves on the disk. There is no exit code
where an exception ends it. -/
structure NbboFromBook (Path : Type*) where
  exitCode : Option Nat
  stats : NbboJournalPipelineStats := {}
  disk : Disk Path

/-- The number of events that the tool has memory set aside for. -/
def reservedEvents (maxEvents : UInt64) : Nat :=
  if 0 < maxEvents then maxEvents.toNat else 1000000

/-- `nbbo_journal_from_book` with its two paths; `maxEvents` of 0 sets no limit, and `reserves` is
whether a vector can be given room for so many events. There is no result where a record holds an
enumeration value that the replay has no meaning for. -/
def nbboJournalFromBook (memory : NbboMemory) (layout : ProbeLayout UInt64) (os : Os Path)
    (reserves : Nat → Bool) (disk : Disk Path) (inPath outPath : Path) (maxEvents : UInt64) :
    Option (NbboFromBook Path) :=
  let opened := JournalReader.openFile {} (disk.files inPath)
  if opened.2 then
    if !reserves (reservedEvents maxEvents) then some { exitCode := none, disk } else
    -- the loop ends behind the last event it may take, without a further `next`
    let room := if maxEvents = 0 then (disk.content inPath).length + 1 else maxEvents.toNat
    let read := opened.1.drain room
    if read.2.stats.crcFailures ≠ 0 then some { exitCode := some 1, disk }
    else
      (read.1.mapM JournalEntry.event?).map fun events =>
        let tape := NbboJournalPipeline.replayToJournal memory layout os disk events outPath
        { exitCode := some (if tape.answer then 0 else 1), stats := tape.stats, disk := tape.disk }
  else some { exitCode := some 1, disk }

namespace NbboReplay

variable {layout : ProbeLayout UInt64} {image : NbboEvent → List UInt8} {s : NbboReplay layout}

/-- The counters tell what the journal of the replay holds. -/
structure Tallied (image : NbboEvent → List UInt8) (s : NbboReplay layout) : Prop where
  crc : s.stats.journalCrc = crc32Update 0 (s.journal.flatMap image)
  emitted : s.stats.nbboEmitted = UInt64.ofNat s.journal.length

theorem Tallied.next (tallied : Tallied image s) (ev : BookEvent) :
    Tallied image (onEvent image s ev) := by
  simp only [onEvent]
  split
  · exact ⟨tallied.crc, tallied.emitted⟩
  · split
    · exact ⟨tallied.crc, tallied.emitted⟩
    · refine ⟨?_, ?_⟩
      · simp only [tallied.crc, List.flatMap_append, List.flatMap_singleton, crc32Update_append]
      · simp only [tallied.emitted, List.length_append, List.length_singleton, UInt64.ofNat_add]
        rfl

theorem run_tallied (image : NbboEvent → List UInt8) (layout : ProbeLayout UInt64)
    (events : List BookEvent) : Tallied image (replayToJournal image layout events) :=
  Run.invariant (P := Tallied image) (fun _ ev tallied => tallied.next ev) events
    ⟨by simp [start, crc32Update], rfl⟩

end NbboReplay

namespace NbboJournalPipeline

variable {os : Os Path} {disk : Disk Path} {memory : NbboMemory} {layout : ProbeLayout UInt64}

/-- A replay is recorded exactly if the file is opened and the system takes the whole header. -/
theorem replayToJournal_answer (events : List BookEvent) (outPath : Path) :
    (replayToJournal memory layout os disk events outPath).answer = true ↔
      os.opens outPath = true ∧ os.writes disk.calls journalHeaderBytes = journalHeaderBytes := by
  have closed : (({ writer := { bufferBytes := writerBufferBytes }, disk } :
      JournalSession Path).close os).disk = disk := rfl
  have offered : nbboJournalHeader.length = journalHeaderBytes := rfl
  have answer : (NbboJournalSession.openFile os
      { writer := { bufferBytes := writerBufferBytes }, disk } outPath).2 = true ↔
        os.opens outPath = true ∧ os.writes disk.calls journalHeaderBytes = journalHeaderBytes := by
    rw [NbboJournalSession.openFile, closed]
    by_cases granted : os.opens outPath = true
    · by_cases taken : os.writes disk.calls journalHeaderBytes = journalHeaderBytes
      · simp [granted, taken, NbboJournalSession.writeHeaderIfNeeded, Disk.truncate, offered]
      · simp [granted, taken, NbboJournalSession.writeHeaderIfNeeded, Disk.truncate, offered]
    · simp [granted]
  rw [← answer, replayToJournal]
  simp only
  split
  · next opened => simp [opened]
  · next refused => simp [refused]

/-- The quotes of a replay are read back from its tape, and the counters of the replay tell
their number and their checksum. -/
theorem replayToJournal_read (accepting : os.Accepting) (events : List BookEvent) (outPath : Path)
    (answered : (replayToJournal memory layout os disk events outPath).answer = true) :
    let tape := replayToJournal memory layout os disk events outPath
    let journal := (NbboReplay.replayToJournal memory.image layout events).journal
    let read := NbboJournalReader.readFile (tape.disk.files outPath)
    NbboRoundTrip (journal.map memory.object) read ∧
      tape.stats.nbboEmitted = UInt64.ofNat journal.length ∧
      tape.stats.journalCrc = read.reader.payloadCrc ∧
      ∀ path, path ≠ outPath → tape.disk.content path = disk.content path := by
  intro tape journal read
  have tallied := NbboReplay.run_tallied memory.image layout events
  have opened : (NbboJournalSession.openFile os
      { writer := { bufferBytes := writerBufferBytes }, disk } outPath).2 = true := by
    rw [replayToJournal] at answered
    simp only at answered
    split at answered
    · assumption
    · cases answered
  have tidy : JournalSession.Tidy nbboRecordBytes
      ({ writer := { bufferBytes := writerBufferBytes }, disk } : JournalSession Path) :=
    ⟨⟨List.length_replicate, List.length_replicate, Nat.zero_le _⟩,
      show nbboRecordBytes ≤ writerBufferBytes by decide⟩
  have streams := NbboJournalSession.streams_run accepting
    ((journal.map memory.object).map QuoteCall.append)
    (NbboJournalSession.openFile_streams tidy opened)
  have quotes : appendedQuotes ((journal.map memory.object).map QuoteCall.append) =
      journal.map memory.object := by
    rw [appendedQuotes, List.filterMap_map]
    exact List.filterMap_some
  rw [List.nil_append, quotes, List.foldl_map] at streams
  have round : NbboRoundTrip (journal.map memory.object) read := by
    have closed := NbboJournalSession.streams_read accepting streams
    simp only [read, tape, replayToJournal, opened, if_true]
    exact closed
  have stats : tape.stats = (NbboReplay.replayToJournal memory.image layout events).stats := by
    simp only [tape, replayToJournal, opened, if_true]
  refine ⟨round, ?_, ?_, ?_⟩
  · rw [stats]
    exact tallied.emitted
  · rw [stats, tallied.crc, round.payloadCrc, List.flatMap_map]
    rfl
  · intro path apart
    have kept := (streams.close accepting).2 path apart
    simp only [tape, replayToJournal, opened, if_true]
    exact kept

end NbboJournalPipeline

theorem JournalReader.openFile_header (r : JournalReader) (data : List UInt8) :
    (r.openFile (some (journalHeader ++ data))).2 = true ∧
      (r.openFile (some (journalHeader ++ data))).1 =
        { r with
          base := some (journalHeader ++ data)
          off := journalHeaderBytes
          stats := {}
          hadError := false
          errorReason := none
          errorOffset := 0 } := by
  have long : ¬ (journalHeader ++ data).length < journalHeaderBytes := by
    simp [journalHeader, journalMagic, journalHeaderBytes]
  have magic : (journalHeader ++ data).take 4 = journalMagic := rfl
  have version : LittleEndian.word32At (journalHeader ++ data) 4 = journalVersion := by
    rw [journalHeader, List.append_assoc, LittleEndian.word32At_append (by decide)]
    exact LittleEndian.word32At_here journalVersion
  simp only [openFile, if_neg long, magic, version, ne_eq, not_true, if_false, close]
  exact ⟨trivial, trivial⟩

/-- The event that a producer has appended, with the time it gave for it. -/
def stampedEvent (item : EventObject × UInt64) : BookEvent :=
  { item.1.event with ingestTsNs := item.2 }

theorem mapM_event?_entriesFrom (seq : UInt64) (items : List (EventObject × UInt64)) :
    (entriesFrom seq items).mapM JournalEntry.event? = some (items.map stampedEvent) := by
  induction items generalizing seq with
  | nil => rfl
  | cons item rest ih =>
    simp [entriesFrom, List.mapM_cons, ih, JournalEntry.event?, EventObject.event?_image,
      stampedEvent]

theorem take_entriesFrom (seq : UInt64) (items : List (EventObject × UInt64)) (count : Nat) :
    (entriesFrom seq items).take count = entriesFrom seq (items.take count) := by
  rw [entriesFrom_eq, entriesFrom_eq]
  apply List.ext_getElem?
  intro i
  simp only [List.getElem?_take, List.getElem?_mapIdx]
  split <;> rfl

/-- Of a journal of whole records a reader takes as many as it is asked for. -/
theorem JournalReader.drain_whole (entries : List JournalEntry) (room : Nat) :
    ((atStart (entriesBytes entries)).drain room).1 = entries.take room ∧
      ((atStart (entriesBytes entries)).drain room).2.stats.crcFailures = 0 := by
  have front : (journalHeader ++ entriesBytes entries).drop journalHeaderBytes =
      entriesBytes (entries.take room) ++ entriesBytes (entries.drop room) := by
    rw [← entriesBytes_append, List.take_append_drop]
    rfl
  have run := drain_entries (r := atStart (entriesBytes entries)) rfl front
  by_cases few : room ≤ entries.length
  · have exact_room := run 0
    rw [List.length_take_of_le few, Nat.add_zero] at exact_room
    rw [exact_room]
    simp [drain, advanced, atStart]
  · have all : (entries.take room).length = entries.length := by
      rw [List.length_take]
      omega
    obtain ⟨more, rfl⟩ : ∃ more, room = entries.length + (more + 1) :=
      ⟨room - entries.length - 1, by omega⟩
    have past_all := run (more + 1)
    rw [all] at past_all
    have done : ((atStart (entriesBytes entries)).advanced entries.length).next =
        (none, (atStart (entriesBytes entries)).advanced entries.length) := by
      have size : ((atStart (entriesBytes entries)).advanced entries.length).off =
          (journalHeader ++ entriesBytes entries).length := by
        rw [List.length_append, length_entriesBytes]
        rfl
      exact scan_end size _
    rw [past_all, drain, done]
    simp [advanced, atStart]

/-- The tool replays the events of a whole book journal in order, at most as many as it is asked
for, and exits with 0 exactly if the file for the quotes can be begun; without the memory that it
asks for first, an exception ends it. -/
theorem nbboJournalFromBook_whole (os : Os Path) {disk : Disk Path} {inPath : Path}
    (memory : NbboMemory) (layout : ProbeLayout UInt64) (reserves : Nat → Bool)
    (items : List (EventObject × UInt64))
    (stored : disk.files inPath = some (journalHeader ++ entriesBytes (entriesFrom 1 items)))
    (outPath : Path) (maxEvents : UInt64) :
    let taken := if maxEvents = 0 then items else items.take maxEvents.toNat
    let tape := NbboJournalPipeline.replayToJournal memory layout os disk (taken.map stampedEvent)
      outPath
    nbboJournalFromBook memory layout os reserves disk inPath outPath maxEvents =
      some (if reserves (reservedEvents maxEvents) then
          { exitCode := some (if tape.answer then 0 else 1), stats := tape.stats, disk := tape.disk }
        else { exitCode := none, disk }) := by
  intro taken tape
  obtain ⟨answer, reader⟩ := JournalReader.openFile_header {} (entriesBytes (entriesFrom 1 items))
  have start : (JournalReader.openFile {}
      (some (journalHeader ++ entriesBytes (entriesFrom 1 items)))).1 =
        .atStart (entriesBytes (entriesFrom 1 items)) := reader
  have count : (entriesFrom 1 items).length = items.length := by simp [entriesFrom_eq]
  have content : (disk.content inPath).length = journalHeaderBytes + items.length * recordBytes := by
    rw [Disk.content, stored, Option.getD_some, List.length_append, length_entriesBytes, count]
    rfl
  have all : items.length ≤ items.length * recordBytes := Nat.le_mul_of_pos_right _ (by decide)
  have few : items.take (if maxEvents = 0 then (disk.content inPath).length + 1
      else maxEvents.toNat) = taken := by
    simp only [taken]
    split
    · exact List.take_of_length_le (by omega)
    · rfl
  obtain ⟨entries, clean⟩ := JournalReader.drain_whole (entriesFrom 1 items)
    (if maxEvents = 0 then (disk.content inPath).length + 1 else maxEvents.toNat)
  rw [take_entriesFrom, few] at entries
  rw [nbboJournalFromBook, stored]
  cases granted : reserves (reservedEvents maxEvents) with
  | false => simp only [answer, if_true, Bool.not_false, Bool.false_eq_true, if_false]
  | true =>
    simp only [answer, if_true, Bool.not_true, Bool.false_eq_true, if_false, start, clean, ne_eq,
      not_true, entries, mapM_event?_entriesFrom, Option.map_some]
    rfl

end FeedHandler
