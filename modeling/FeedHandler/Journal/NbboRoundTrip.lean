import FeedHandler.Journal.NbboJournalReader

/-! What is appended to a journal of quotes is read back from it. The writer truncates the file
when it opens it, so neither what the file held nor what the writer has done before matters;
`open` answers true only if the system has taken the whole header. -/
namespace FeedHandler

open AppendFile
open SealedRecord

variable {Path Item : Type*} {format : RecordFormat Item} {s : JournalSession Path}
  {path : Path} {others : Path → List UInt8} {first : UInt64} {items : List Item} {os : Os Path}

namespace JournalSession

/-- The session writes to `path`: what the file holds and what is pending make up the header and
the records of the items, numbered from `first` on. The other files stay as they were. -/
structure Streams (format : RecordFormat Item) (s : JournalSession Path) (path : Path)
    (others : Path → List UInt8) (first : UInt64) (items : List Item) : Prop where
  fd : s.writer.fd = some path
  frame : ∀ other, other ≠ path → s.disk.content other = others other
  buffered : s.writer.Buffered
  room : format.recordSize ≤ s.writer.bufferBytes
  stored : s.disk.content path ++ s.writer.pending =
    format.header ++ format.recordsFrom first items
  next : s.writer.nextSeq = first + UInt64.ofNat items.length

theorem Streams.put (streams : Streams format s path others first items)
    (fits : s.writer.activeUsed + format.recordSize ≤ s.writer.bufferBytes) (item : Item) :
    Streams format { s with writer := s.writer.putRecord (format.record s.writer.nextSeq item) }
      path others first (items ++ [item]) := by
  have sized : s.writer.activeUsed + (format.record s.writer.nextSeq item).length ≤
      s.writer.bufferBytes := by rwa [format.length_record]
  refine ⟨streams.fd, streams.frame, streams.buffered.putRecord sized, streams.room, ?_, ?_⟩
  · simp only
    rw [streams.buffered.pending_putRecord sized, ← List.append_assoc, streams.stored,
      format.recordsFrom_append, streams.next, List.append_assoc]
    simp [RecordFormat.recordsFrom]
  · have number : s.writer.nextSeq + 1 = first + UInt64.ofNat (items.length + 1) := by
      rw [streams.next, UInt64.ofNat_add, ← UInt64.add_assoc]
      rfl
    rw [List.length_append]
    exact number

variable [DecidableEq Path]

/-- Writing out moves the pending bytes to the file, whatever parts the calls take. -/
theorem Streams.flushed (accepting : os.Accepting)
    (streams : Streams format s path others first items) :
    Streams format (s.flushActiveBuffer os) path others first items ∧
      (s.flushActiveBuffer os).writer.activeUsed = 0 := by
  simp only [flushActiveBuffer, streams.fd]
  split
  · next unused => exact ⟨streams, unused⟩
  · have size := streams.buffered.length_pending
    have stored := Disk.content_writeAll accepting path size.le s.disk
    refine ⟨⟨rfl, ?_, ⟨streams.buffered.sizeA, streams.buffered.sizeB, Nat.zero_le _⟩,
      streams.room, ?_, streams.next⟩, rfl⟩
    · intro other apart
      exact (Disk.content_writeAll_other apart ..).trans (streams.frame other apart)
    simp only [JournalWriter.pending, List.take_zero, List.append_nil]
    exact stored.trans streams.stored

theorem Streams.append (accepting : os.Accepting)
    (streams : Streams format s path others first items) (item : Item) :
    Streams format (s.appendRecord format os item) path others first (items ++ [item]) := by
  have opened : s.writer.fd ≠ none := by simp [streams.fd]
  obtain ⟨flushed, unused⟩ := streams.flushed accepting
  have room := flushed.room
  simp only [appendRecord, if_neg opened]
  split
  · exact flushed.put (by omega) item
  · exact streams.put (by omega) item

theorem Streams.close (accepting : os.Accepting)
    (streams : Streams format s path others first items) :
    (s.close os).disk.content path = format.header ++ format.recordsFrom first items ∧
      ∀ other, other ≠ path → (s.close os).disk.content other = others other := by
  obtain ⟨flushed, unused⟩ := streams.flushed accepting
  have stored := flushed.stored
  rw [JournalWriter.pending, unused, List.take_zero, List.append_nil] at stored
  exact ⟨stored, flushed.frame⟩

/-- What every call keeps of a writer: its buffers have the configured size, and a record fits
in one. -/
structure Tidy (recordSize : Nat) (s : JournalSession Path) : Prop where
  buffered : s.writer.Buffered
  room : recordSize ≤ s.writer.bufferBytes

theorem Tidy.flushed {recordSize : Nat} (tidy : Tidy recordSize s) (os : Os Path) :
    Tidy recordSize (s.flushActiveBuffer os) ∧
      (s.writer.fd ≠ none → (s.flushActiveBuffer os).writer.activeUsed = 0) := by
  rw [flushActiveBuffer]
  cases opened : s.writer.fd with
  | none => exact ⟨tidy, fun some_path => absurd rfl some_path⟩
  | some path =>
    simp only
    split
    · next unused => exact ⟨tidy, fun _ => unused⟩
    · exact ⟨⟨⟨tidy.buffered.sizeA, tidy.buffered.sizeB, Nat.zero_le _⟩, tidy.room⟩, fun _ => rfl⟩

theorem Tidy.close {recordSize : Nat} (tidy : Tidy recordSize s) (os : Os Path) :
    Tidy recordSize (s.close os) := by
  obtain ⟨flushed, _⟩ := tidy.flushed os
  exact ⟨⟨flushed.buffered.sizeA, flushed.buffered.sizeB, Nat.zero_le _⟩, flushed.room⟩

end JournalSession

variable [DecidableEq Path]

/-- What a producer asks of an open journal of quotes. -/
inductive QuoteCall where
  | append (o : NbboObject)
  | flush

def QuoteCall.quote : QuoteCall → Option NbboObject
  | .append o => some o
  | .flush => none

/-- The appended quotes in order. -/
def appendedQuotes (calls : List QuoteCall) : List NbboObject := calls.filterMap QuoteCall.quote

namespace NbboJournalSession

open JournalSession

def call (os : Os Path) (s : NbboJournalSession Path) : QuoteCall → NbboJournalSession Path
  | .append o => append os s o
  | .flush => s.flush os

theorem tidy_step (tidy : Tidy nbboRecordBytes s) (call : WriterCall Path NbboObject) :
    Tidy nbboRecordBytes (step os s call) := by
  cases call with
  | openFile path =>
    have closed := tidy.close os
    simp only [step, openFile]
    split
    · have granted : Tidy nbboRecordBytes (writeHeaderIfNeeded os
          { writer := { (s.close os).writer with fd := some path },
            disk := (s.close os).disk.truncate path } path).1 :=
        ⟨⟨closed.buffered.sizeA, closed.buffered.sizeB, closed.buffered.used⟩, closed.room⟩
      split
      · exact granted
      · exact granted.close os
    · exact closed
  | append o =>
    obtain ⟨flushed, unused⟩ := tidy.flushed os
    simp only [step, append, appendRecord]
    split
    · exact tidy
    · next opened =>
      split
      · have fits : (s.flushActiveBuffer os).writer.activeUsed +
            (nbboFormat.record (s.flushActiveBuffer os).writer.nextSeq o).length ≤
              (s.flushActiveBuffer os).writer.bufferBytes := by
          rw [nbboFormat.length_record, unused opened, Nat.zero_add]
          exact flushed.room
        exact ⟨flushed.buffered.putRecord fits, flushed.room⟩
      · next full =>
        have fits : s.writer.activeUsed + (nbboFormat.record s.writer.nextSeq o).length ≤
            s.writer.bufferBytes := by
          rw [nbboFormat.length_record]
          omega
        exact ⟨tidy.buffered.putRecord fits, tidy.room⟩
  | flush => exact (tidy.flushed os).1
  | close => exact tidy.close os

/-- Where `open` answers true, the file is the header, whatever it held before. -/
theorem openFile_streams (tidy : Tidy nbboRecordBytes s)
    (opened : (openFile os s path).2 = true) :
    Streams nbboFormat (openFile os s path).1 path (s.close os).disk.content s.writer.nextSeq [] := by
  have closed := tidy.close os
  have same : (s.close os).writer.nextSeq = s.writer.nextSeq := nextSeq_flushActiveBuffer
  rw [openFile] at opened ⊢
  split at opened
  · next granted =>
    rw [if_pos granted]
    simp only at opened ⊢
    split at opened
    · next taken =>
      rw [if_pos taken]
      have complete := of_decide_eq_true taken
      refine ⟨rfl, ?_, ⟨closed.buffered.sizeA, closed.buffered.sizeB, closed.buffered.used⟩,
        closed.room, ?_, ?_⟩
      · intro other apart
        simp only [writeHeaderIfNeeded]
        rw [Disk.content_write_other apart, Disk.content_truncate_other apart]
      · have whole : nbboJournalHeader.take (os.writes ((s.close os).disk.truncate path).calls
            nbboJournalHeader.length).toNat = nbboJournalHeader := by
          rw [complete]
          rfl
        have unused : (s.close os).writer.activeUsed = 0 := rfl
        simp only [writeHeaderIfNeeded, Disk.content_write, Disk.content_truncate, whole,
          List.nil_append, JournalWriter.pending, unused, List.take_zero, List.append_nil]
        exact (List.append_nil _).symm
      · rw [List.length_nil]
        exact same.trans (UInt64.add_zero _).symm
    · cases opened
  · cases opened

/-- Run lemma: the quotes appended to an open file follow each other in it, wherever the buffers
end and flushes fall. -/
theorem streams_run (accepting : os.Accepting) (calls : List QuoteCall)
    {quotes : List NbboObject} (streams : Streams nbboFormat s path others first quotes) :
    Streams nbboFormat (calls.foldl (call os) s) path others first
      (quotes ++ appendedQuotes calls) := by
  induction calls generalizing s quotes with
  | nil => simpa [appendedQuotes] using streams
  | cons head rest ih =>
    cases head with
    | append o =>
      have further := ih (s := append os s o) (streams.append accepting o)
      simpa [call, appendedQuotes, QuoteCall.quote] using further
    | flush => exact ih (streams.flushed accepting).1

end NbboJournalSession

/-- The record of a quote. -/
def nbboSealed (seq : UInt64) (o : NbboObject) : NbboRecord where
  number := seq
  stamp := o.event.ingestTsNs
  length := nbboPayloadLenV1
  checksum := crc32Update 0 o.bytes
  payload := o.image

def nbboSealedFrom (seq : UInt64) : List NbboObject → List NbboRecord
  | [] => []
  | o :: rest => nbboSealed seq o :: nbboSealedFrom (seq + 1) rest

theorem nbboSealed_intact (seq : UInt64) (o : NbboObject) : nbboIntact (nbboSealed seq o) = true :=
  decide_eq_true rfl

theorem sealedBytes_nbboSealedFrom (seq : UInt64) (quotes : List NbboObject) :
    sealedBytes (nbboSealedFrom seq quotes) = nbboFormat.recordsFrom seq quotes := by
  induction quotes generalizing seq with
  | nil => rfl
  | cons o rest ih =>
    rw [nbboSealedFrom, sealedBytes_cons, ih]
    rfl

theorem nbboSealedFrom_sound (seq : UInt64) (quotes : List NbboObject) :
    (∀ record ∈ nbboSealedFrom seq quotes, record.Framed ∧ nbboIntact record = true) ∧
      (nbboSealedFrom seq quotes).map Sealed.payload = quotes.map NbboObject.image := by
  induction quotes generalizing seq with
  | nil => exact ⟨by simp [nbboSealedFrom], rfl⟩
  | cons o rest ih =>
    obtain ⟨sound, payloads⟩ := ih (seq + 1)
    refine ⟨?_, by rw [nbboSealedFrom, List.map_cons, payloads]; rfl⟩
    intro record held
    cases held with
    | head => exact ⟨rfl, nbboSealed_intact seq o⟩
    | tail _ held => exact sound record held

/-- The quotes are read back as they were appended, in order, and the checksum of the reader is
that of the objects in memory. -/
structure NbboRoundTrip (quotes : List NbboObject) (read : NbboJournalRead) : Prop where
  opened : read.opened = true
  images : read.images = quotes.map NbboObject.image
  events : read.images.map nbboEvent? = quotes.map fun o => some o.event
  recordsRead : read.reader.stats.recordsRead = quotes.length
  bytesRead : read.reader.stats.bytesRead = quotes.length * nbboRecordBytes
  crcFailures : read.reader.stats.crcFailures = 0
  payloadCrc : read.reader.payloadCrc = crc32Update 0 (quotes.flatMap NbboObject.bytes)

/-- Reading a file of whole records gives back what they were made from, whatever number the
first of them bears. -/
theorem nbbo_round_trip_whole (seq : UInt64) (quotes : List NbboObject) :
    NbboRoundTrip quotes (NbboJournalReader.readFile
      (some (nbboJournalHeader ++ nbboFormat.recordsFrom seq quotes))) := by
  obtain ⟨sound, payloads⟩ := nbboSealedFrom_sound seq quotes
  have framed : ∀ record ∈ nbboSealedFrom seq quotes, record.Framed :=
    fun record held => (sound record held).1
  have kept : (nbboSealedFrom seq quotes).filter nbboIntact = nbboSealedFrom seq quotes :=
    List.filter_eq_self.mpr fun record held => (sound record held).2
  have count : (nbboSealedFrom seq quotes).length = quotes.length := by
    simpa using congrArg List.length payloads
  have broken : (nbboSealedFrom seq quotes).countP (!nbboIntact ·) = 0 := by
    rw [List.countP_eq_zero]
    intro record held
    simp [(sound record held).2]
  have file : nbboJournalHeader ++ nbboFormat.recordsFrom seq quotes =
      nbboJournalHeader ++ (sealedBytes (nbboSealedFrom seq quotes) ++ []) := by
    rw [sealedBytes_nbboSealedFrom, List.append_nil]
  have unframed : Unsealed nbboEventBytes [] := unsealed_of_short (by decide)
  rw [file]
  have read := (NbboJournalReader.readFile_records framed unframed)
  have images : (NbboJournalReader.readFile (some (nbboJournalHeader ++
      (sealedBytes (nbboSealedFrom seq quotes) ++ [])))).images = quotes.map NbboObject.image := by
    rw [read]
    simp only [kept, payloads]
  constructor
  · rw [read]
  · exact images
  · rw [images, List.map_map]
    exact List.map_congr_left fun o _ => o.nbboEvent?_image
  · rw [read, ← count]
    simp [NbboJournalReader.stopAt, NbboJournalReader.behind, NbboJournalReader.atStart,
      recordHeaderBytes, List.countP_eq_length_filter, kept]
  · rw [read, ← count]
    simp [NbboJournalReader.stopAt, NbboJournalReader.behind, NbboJournalReader.atStart,
      recordHeaderBytes]
  · rw [read]
    simp [NbboJournalReader.stopAt, NbboJournalReader.behind, NbboJournalReader.atStart,
      recordHeaderBytes, broken]
  · have bytes : quotes.flatMap NbboObject.bytes =
        (nbboSealedFrom seq quotes).flatMap fun record => record.payload.val := by
      have flat := congrArg (List.flatMap Subtype.val) payloads
      rw [List.flatMap_map, List.flatMap_map] at flat
      exact flat.symm
    rw [read, bytes]
    simp [NbboJournalReader.stopAt, NbboJournalReader.behind, NbboJournalReader.atStart,
      recordHeaderBytes, kept]

/-- What has been streamed to a file is read back once the file is closed. -/
theorem NbboJournalSession.streams_read (accepting : os.Accepting) {quotes : List NbboObject}
    (streams : JournalSession.Streams nbboFormat s path others first quotes) :
    NbboRoundTrip quotes (NbboJournalReader.readFile ((s.close os).disk.files path)) := by
  have file := Disk.files_eq (streams.close accepting).1
    (List.append_ne_nil_of_left_ne_nil (by decide) _)
  rw [file]
  exact nbbo_round_trip_whole first quotes

/-- Whatever the writer has done before and whatever the file held, if `open` answers true, then
the quotes that are appended up to the `close` are read back from the file, wherever the
buffers end, flushes fall and the system splits what it is offered. -/
theorem nbbo_round_trip (os : Os Path) (accepting : os.Accepting) (bufferBytes : Nat)
    (room : nbboRecordBytes ≤ bufferBytes) (disk : Disk Path)
    (history : List (WriterCall Path NbboObject)) (path : Path) (calls : List QuoteCall) :
    let used := history.foldl (NbboJournalSession.step os) { writer := { bufferBytes }, disk }
    let opened := NbboJournalSession.openFile os used path
    let closed := (calls.foldl (NbboJournalSession.call os) opened.1).close os
    opened.2 = true →
      NbboRoundTrip (appendedQuotes calls)
        (NbboJournalReader.readFile (closed.disk.files path)) := by
  intro used opened closed answered
  have tidy : JournalSession.Tidy nbboRecordBytes used := by
    apply Run.invariant (P := JournalSession.Tidy nbboRecordBytes)
      (fun _ call tidy => NbboJournalSession.tidy_step tidy call) history
    exact ⟨⟨List.length_replicate, List.length_replicate, Nat.zero_le _⟩, room⟩
  exact NbboJournalSession.streams_read accepting (NbboJournalSession.streams_run accepting calls
    (NbboJournalSession.openFile_streams tidy answered))

/-- The writer has left a file behind before; the second one is written eight bytes a call. -/
theorem nbbo_round_trip_second_file :
    let os : Os Nat := .partialWrites false 8 8
    let quote : NbboObject := { event := { symbolU64 := 7, hasBid := true, bidPrice := 100 } }
    let used := [.openFile 0, .append quote].foldl (NbboJournalSession.step os)
      { writer := { bufferBytes := 88 }, disk := { files := fun _ => some [1] } }
    let opened := NbboJournalSession.openFile os used 1
    let closed := ([.append quote, .flush, .append { event := {} }].foldl
      (NbboJournalSession.call os) opened.1).close os
    NbboRoundTrip [quote, { event := {} }]
      (NbboJournalReader.readFile (closed.disk.files 1)) :=
  nbbo_round_trip (.partialWrites false 8 8)
    (Os.partialWrites_accepting (by decide) (by decide)) 88 (by decide)
    { files := fun _ => some [1] }
    [.openFile 0, .append { event := { symbolU64 := 7, hasBid := true, bidPrice := 100 } }] 1
    [.append { event := { symbolU64 := 7, hasBid := true, bidPrice := 100 } }, .flush,
      .append { event := {} }] (by decide +kernel)

end FeedHandler
