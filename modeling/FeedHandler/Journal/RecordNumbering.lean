import FeedHandler.Journal.RecordWriter
import FeedHandler.Phase3.NbboReplay

/-! The numbers of the records in the files of one writer. The journal writer takes up the
numbering of a file that exists; for a file it creates, and for every file of the NBBO
writer, the next number stays what the files before have made it. -/
namespace FeedHandler

open AppendFile
open LittleEndian

def journalFormat : RecordFormat (EventObject × UInt64) where
  header := journalHeader
  record := fun seq item => JournalEntry.bytes ⟨seq, item.2, item.1.image⟩
  recordSize := recordBytes
  some_header := by decide
  length_record := fun _ _ => JournalEntry.length_bytes _

def nbboJournalMagic : List UInt8 := ['M'.toUInt8, 'F'.toUInt8, 'N'.toUInt8, 'B'.toUInt8]

def nbboJournalVersion : UInt32 := 1

def nbboJournalHeader : List UInt8 := nbboJournalMagic ++ word32 nbboJournalVersion

/-- `sizeof(NbboEvent)`. -/
def nbboEventBytes : Nat := 64

def nbboRecordBytes : Nat := recordHeaderBytes + nbboEventBytes

/-- A quote in memory: behind the two flags and behind the two venues lie two bytes that
carry no value. -/
structure NbboObject where
  event : NbboEvent
  gap : Vector UInt8 2 := Vector.replicate 2 0
  venueGap : Vector UInt8 2 := Vector.replicate 2 0
  deriving DecidableEq, Repr

def NbboObject.bytes (o : NbboObject) : List UInt8 :=
  word64 o.event.symbolU64 ++ (word64 o.event.exchangeTsNs ++ (word64 o.event.ingestTsNs ++
  ([if o.event.hasBid then 1 else 0] ++ ([if o.event.hasAsk then 1 else 0] ++ (o.gap.toList ++
  (word32 o.event.bidPrice ++ (word32 o.event.bidQty ++ (word32 o.event.askPrice ++
  (word32 o.event.askQty ++ ([o.event.bidVenue] ++ ([o.event.askVenue] ++ (o.venueGap.toList ++
  (word64 o.event.bidVenueSequence ++ word64 o.event.askVenueSequence)))))))))))))

theorem NbboObject.length_bytes (o : NbboObject) : o.bytes.length = nbboEventBytes := by
  simp [bytes, nbboEventBytes]

/-- The record of a quote carries the quote's own ingest time. -/
def nbboRecord (seq : UInt64) (o : NbboObject) : List UInt8 :=
  word64 seq ++ (word64 o.event.ingestTsNs ++ (word32 (UInt32.ofNat nbboEventBytes) ++
  (word32 (crc32Update 0 o.bytes) ++ o.bytes)))

def nbboFormat : RecordFormat NbboObject where
  header := nbboJournalHeader
  record := nbboRecord
  recordSize := nbboRecordBytes
  some_header := by decide
  length_record := by
    intro seq o
    simp only [nbboRecord, List.length_append, length_word64, length_word32, o.length_bytes]
    rfl

variable {Path : Type*} {os : Os Path} {s : JournalSession Path} {path : Path}

namespace JournalSession

/-- The header in front of the records passes the check, and the records are counted. -/
theorem validateExistingHeader_numbered {items : List (EventObject × UInt64)}
    (content : s.disk.content path = journalHeader ++ journalFormat.recordsFrom 1 items) :
    s.validateExistingHeader os path =
      if os.readsWriteOnly then
        ({ s with writer := { s.writer with nextSeq := UInt64.ofNat (items.length + 1) } }, true)
      else (s, false) := by
  have header : journalHeader.length = journalHeaderBytes := rfl
  have size : (s.disk.content path).length = journalHeaderBytes + items.length * recordBytes := by
    rw [content, List.length_append, header, journalFormat.length_recordsFrom]
    rfl
  have front : (s.disk.content path).take journalHeaderBytes = journalHeader := by
    rw [content]
    exact List.take_left' header
  have magic : journalHeader.take 4 = journalMagic := by decide
  have version : word32At journalHeader 4 = journalVersion := by decide
  have counted : items.length * recordBytes / recordBytes = items.length :=
    Nat.mul_div_cancel _ (by decide)
  rw [validateExistingHeader, Disk.pread, front, size]
  cases os.readsWriteOnly with
  | false => simp
  | true =>
    simp only [Bool.true_and, Nat.le_add_right, decide_true, if_true, magic, version, ne_eq,
      not_true, if_false, Nat.add_sub_cancel_left, counted]

end JournalSession

variable [DecidableEq Path]

def JournalSession.step (os : Os Path) (s : JournalSession Path) :
    WriterCall Path (EventObject × UInt64) → JournalSession Path
  | .openFile path => (s.openFile os path).1
  | .append item => s.append os item.1 item.2
  | .flush => s.flush os
  | .close => s.close os

/-- The NBBO writer has the members of the journal writer, and its `flush` and `close`. -/
abbrev NbboJournalSession (Path : Type*) := JournalSession Path

namespace NbboJournalSession

def append (os : Os Path) (s : NbboJournalSession Path) (o : NbboObject) :
    NbboJournalSession Path := s.appendRecord nbboFormat os o

def writeHeaderIfNeeded (os : Os Path) (s : NbboJournalSession Path) (path : Path) :
    NbboJournalSession Path × Bool :=
  ({ s with disk := s.disk.write os path nbboJournalHeader },
    decide (os.writes s.disk.calls nbboJournalHeader.length = journalHeaderBytes))

/-- `NbboJournalWriter::open`. -/
def openFile (os : Os Path) (s : NbboJournalSession Path) (path : Path) :
    NbboJournalSession Path × Bool :=
  let closed := s.close os
  if os.opens path then
    let checked := writeHeaderIfNeeded os
      { writer := { closed.writer with fd := some path }, disk := closed.disk.truncate path } path
    if checked.2 then checked else (checked.1.close os, false)
  else (closed, false)

def step (os : Os Path) (s : NbboJournalSession Path) :
    WriterCall Path NbboObject → NbboJournalSession Path
  | .openFile path => (openFile os s path).1
  | .append o => append os s o
  | .flush => s.flush os
  | .close => s.close os

end NbboJournalSession

/-- The system takes a header of a journal in one call. -/
def HeadersTaken (os : Os Path) : Prop :=
  ∀ call, os.writes call journalHeaderBytes = journalHeaderBytes

namespace JournalSession

theorem append_eq (o : EventObject) (ingestTsNs : UInt64) :
    s.append os o ingestTsNs = s.appendRecord journalFormat os (o, ingestTsNs) := rfl

/-- `open` takes up the numbering of a file, or begins one if the next number is 1. -/
theorem Keeps.openFile (accepting : os.Accepting) (headers : HeadersTaken os)
    (keeps : Keeps journalFormat s)
    (fresh : os.opens path = true → s.disk.content path = [] → s.writer.nextSeq = 1) :
    Keeps journalFormat (s.openFile os path).1 := by
  have closed := keeps.close accepting
  rw [JournalSession.openFile]
  cases granted : os.opens path with
  | false => exact closed.keeps
  | true =>
    simp only [if_true]
    rw [writeHeaderIfNeeded]
    simp only [Disk.content_create]
    rcases closed.files path with empty | ⟨items, content⟩
    · have first : (s.close os).writer.nextSeq = 1 :=
        nextSeq_flushActiveBuffer.trans (fresh granted (keeps.content_close accepting empty))
      have taken := headers ((s.close os).disk.create path).calls
      have stored : (((s.close os).disk.create path).write os path journalHeader).content path =
          journalHeader := by
        rw [Disk.content_write, Disk.content_create, empty, List.nil_append]
        exact (congrArg (fun n : Int => journalHeader.take n.toNat) taken).trans
          (List.take_length (l := journalHeader))
      have others : ∀ other, other ≠ path →
          (((s.close os).disk.create path).write os path journalHeader).content other =
            (s.close os).disk.content other := by
        intro other apart
        rw [Disk.content_write_other apart, Disk.content_create_other apart]
      have complete : decide (os.writes ((s.close os).disk.create path).calls
          journalHeader.length = journalHeaderBytes) = true := decide_eq_true taken
      simp only [empty, List.length_nil, if_true, complete]
      exact closed.headed others stored first
    · have used : ¬ ((s.close os).disk.content path).length = 0 := by
        rw [content, List.length_append]
        have header : journalFormat.header.length = journalHeaderBytes := rfl
        rw [header, journalHeaderBytes]
        omega
      have files : ∀ other, ((s.close os).disk.create path).content other =
          (s.close os).disk.content other := by
        intro other
        by_cases same : other = path
        · rw [same, Disk.content_create]
        · exact Disk.content_create_other same _
      rw [if_neg used, validateExistingHeader_numbered ((files path).trans content)]
      cases os.readsWriteOnly with
      | false => exact (closed.refused files).keeps
      | true =>
        simp only [if_true]
        refine ⟨⟨closed.buffered.sizeA, closed.buffered.sizeB, closed.buffered.used⟩, closed.room,
          ?_, ?_⟩
        · intro other _
          exact (files other).symm ▸ closed.files other
        · intro current same
          simp only [Option.some.injEq] at same
          subst same
          refine ⟨items, [], (files path).trans content, ?_, ?_⟩
          · simp [JournalWriter.pending, closed.unused, RecordFormat.recordsFrom]
          · rw [List.append_nil, UInt64.ofNat_add, UInt64.add_comm]
            rfl

end JournalSession

namespace NbboJournalSession

/-- The NBBO writer's `open` begins a numbering only if the next number is 1. -/
theorem keeps_openFile (accepting : os.Accepting) (headers : HeadersTaken os)
    (keeps : JournalSession.Keeps nbboFormat s)
    (fresh : os.opens path = true → s.writer.nextSeq = 1) :
    JournalSession.Keeps nbboFormat (openFile os s path).1 := by
  have closed := keeps.close accepting
  rw [openFile]
  cases granted : os.opens path with
  | false => exact closed.keeps
  | true =>
    have first : (s.close os).writer.nextSeq = 1 :=
      JournalSession.nextSeq_flushActiveBuffer.trans (fresh granted)
    have taken := headers ((s.close os).disk.truncate path).calls
    have stored : (((s.close os).disk.truncate path).write os path nbboJournalHeader).content path =
        nbboJournalHeader := by
      rw [Disk.content_write, Disk.content_truncate, List.nil_append]
      exact (congrArg (fun n : Int => nbboJournalHeader.take n.toNat) taken).trans
        (List.take_length (l := nbboJournalHeader))
    have others : ∀ other, other ≠ path →
        (((s.close os).disk.truncate path).write os path nbboJournalHeader).content other =
          (s.close os).disk.content other := by
      intro other apart
      rw [Disk.content_write_other apart, Disk.content_truncate_other apart]
    have complete : decide (os.writes ((s.close os).disk.truncate path).calls
        nbboJournalHeader.length = journalHeaderBytes) = true := decide_eq_true taken
    simp only [if_true, writeHeaderIfNeeded, complete]
    exact closed.headed others stored first

end NbboJournalSession

/-- The file that the call begins is begun with the number 1. -/
def JournalSession.Fresh (os : Os Path) (s : JournalSession Path) :
    WriterCall Path (EventObject × UInt64) → Prop
  | .openFile path => os.opens path = true → s.disk.content path = [] → s.writer.nextSeq = 1
  | _ => True

/-- Every file that the NBBO writer opens is begun anew. -/
def NbboJournalSession.Fresh (os : Os Path) (s : NbboJournalSession Path) :
    WriterCall Path NbboObject → Prop
  | .openFile path => os.opens path = true → s.writer.nextSeq = 1
  | _ => True

theorem JournalSession.Keeps.step (accepting : os.Accepting) (headers : HeadersTaken os)
    (keeps : Keeps journalFormat s) (call : WriterCall Path (EventObject × UInt64))
    (fresh : s.Fresh os call) : Keeps journalFormat (s.step os call) := by
  cases call with
  | openFile path => exact keeps.openFile accepting headers fresh
  | append item =>
    rw [JournalSession.step, append_eq]
    exact keeps.append accepting item
  | flush => exact (keeps.flushed accepting).1
  | close => exact (keeps.close accepting).keeps

theorem NbboJournalSession.keeps_step (accepting : os.Accepting) (headers : HeadersTaken os)
    (keeps : JournalSession.Keeps nbboFormat s) (call : WriterCall Path NbboObject)
    (fresh : NbboJournalSession.Fresh os s call) :
    JournalSession.Keeps nbboFormat (NbboJournalSession.step os s call) := by
  cases call with
  | openFile path => exact keeps_openFile accepting headers keeps fresh
  | append o => exact keeps.append accepting o
  | flush => exact (keeps.flushed accepting).1
  | close => exact (keeps.close accepting).keeps

/-- In every history of calls in which each file that is begun is begun with the next number
at 1, the records of every file of either writer are numbered 1, 2, 3 and so on. -/
theorem files_numbered (os : Os Path) (accepting : os.Accepting) (headers : HeadersTaken os)
    (bufferBytes nbboBufferBytes : Nat) (room : recordBytes ≤ bufferBytes)
    (nbboRoom : nbboRecordBytes ≤ nbboBufferBytes) (disk nbboDisk : Disk Path)
    (files : ∀ path, journalFormat.Numbered (disk.content path))
    (nbboFiles : ∀ path, nbboFormat.Numbered (nbboDisk.content path))
    (calls : List (WriterCall Path (EventObject × UInt64)))
    (nbboCalls : List (WriterCall Path NbboObject))
    (fresh : Run.Along (JournalSession.step os) (JournalSession.Fresh os)
      { writer := { bufferBytes }, disk } calls)
    (nbboFresh : Run.Along (NbboJournalSession.step os) (NbboJournalSession.Fresh os)
      { writer := { bufferBytes := nbboBufferBytes }, disk := nbboDisk } nbboCalls) (path : Path) :
    journalFormat.Numbered ((calls.foldl (JournalSession.step os)
        { writer := { bufferBytes }, disk }).disk.content path) ∧
      nbboFormat.Numbered ((nbboCalls.foldl (NbboJournalSession.step os)
        { writer := { bufferBytes := nbboBufferBytes }, disk := nbboDisk }).disk.content path) := by
  have journal := fresh.invariant (P := JournalSession.Keeps journalFormat)
    (fun s call keeps met => keeps.step accepting headers call met)
    (JournalSession.keeps_new room files)
  have nbbo := nbboFresh.invariant (P := JournalSession.Keeps nbboFormat)
    (fun s call keeps met => NbboJournalSession.keeps_step accepting headers keeps call met)
    (JournalSession.keeps_new nbboRoom nbboFiles)
  exact ⟨journal.numbered path, nbbo.numbered path⟩

theorem headersTaken_partialWrites (reads : Bool) :
    HeadersTaken (.partialWrites reads 1000 1000 : Os Nat) := by
  intro call
  simp [Os.partialWrites, journalHeaderBytes]

/-- A file that is begun, closed and taken up again, and one file of quotes. -/
theorem files_numbered_again :
    let calls := [.openFile 0, .append ({ event := {} }, 70), .close, .openFile 0,
      .append ({ event := { sequence := 7 } }, 80), .close]
    let nbboCalls := [.openFile 0, .append { event := {} }, .close]
    journalFormat.Numbered ((calls.foldl (JournalSession.step (.partialWrites true 1000 1000))
        { writer := { bufferBytes := 112 }, disk := { files := fun _ => none } }).disk.content 0) ∧
      nbboFormat.Numbered ((nbboCalls.foldl
        (NbboJournalSession.step (.partialWrites true 1000 1000))
        { writer := { bufferBytes := 112 }, disk := { files := fun _ => none } }).disk.content 0) :=
  files_numbered (.partialWrites true 1000 1000)
    (Os.partialWrites_accepting (by decide) (by decide)) (headersTaken_partialWrites true)
    112 112 (by decide) (by decide) { files := fun _ => none } { files := fun _ => none }
    (fun _ => .inl rfl) (fun _ => .inl rfl)
    [.openFile 0, .append ({ event := {} }, 70), .close, .openFile 0,
      .append ({ event := { sequence := 7 } }, 80), .close]
    [.openFile 0, .append { event := {} }, .close]
    ⟨fun _ _ => rfl, trivial, trivial, fun _ empty => absurd empty (by decide +kernel), trivial,
      trivial, trivial⟩
    ⟨fun _ => rfl, trivial, trivial, trivial⟩ 0

/-- A file of one record that does not bear the number 1 is not numbered. -/
theorem RecordFormat.not_numbered {Item : Type*} (format : RecordFormat Item) {seq : UInt64}
    {item : Item} (differs : ∀ other, format.record seq item ≠ format.record 1 other)
    (some_bytes : 0 < format.recordSize) :
    ¬ format.Numbered (format.header ++ format.record seq item) := by
  rintro (empty | ⟨items, same⟩)
  · exact format.some_header (List.append_eq_nil_iff.mp empty).1
  · have records := List.append_cancel_left same
    cases items with
    | nil =>
      have size := format.length_record seq item
      rw [records, recordsFrom, List.length_nil] at size
      omega
    | cons other rest =>
      have first := congrArg (List.take format.recordSize) records
      rw [recordsFrom, List.take_left' (format.length_record 1 other),
        List.take_of_length_le (format.length_record seq item).le] at first
      exact differs other first

/-- One writer begins two files, or the NBBO writer two of its own: the record of the second
file bears the number 2. -/
theorem second_file_numbered_from_two :
    let o : EventObject := { event := {} }
    let quote : NbboObject := { event := {} }
    let session := [.openFile 0, .append (o, 70), .openFile 1, .append (o, 80), .close].foldl
      (JournalSession.step (.partialWrites false 1000 1000))
      { writer := { bufferBytes := 112 }, disk := { files := fun _ => none } }
    let nbboSession := [.openFile 0, .append quote, .openFile 1, .append quote, .close].foldl
      (NbboJournalSession.step (.partialWrites false 1000 1000))
      { writer := { bufferBytes := 112 }, disk := { files := fun _ => none } }
    session.disk.content 1 = journalHeader ++ journalFormat.record 2 (o, 80) ∧
      ¬ journalFormat.Numbered (session.disk.content 1) ∧
      nbboSession.disk.content 1 = nbboJournalHeader ++ nbboFormat.record 2 quote ∧
      ¬ nbboFormat.Numbered (nbboSession.disk.content 1) := by
  intro o quote session nbboSession
  have content : session.disk.content 1 = journalHeader ++ journalFormat.record 2 (o, 80) := by
    decide +kernel
  have nbboContent : nbboSession.disk.content 1 =
      nbboJournalHeader ++ nbboFormat.record 2 quote := by
    decide +kernel
  have numbers : word64 2 ≠ word64 1 := by decide
  refine ⟨content, ?_, nbboContent, ?_⟩
  · rw [content]
    refine journalFormat.not_numbered (fun other same => ?_) (by decide)
    exact numbers (List.append_inj_left same rfl)
  · rw [nbboContent]
    refine nbboFormat.not_numbered (fun other same => ?_) (by decide)
    exact numbers (List.append_inj_left same rfl)

end FeedHandler
