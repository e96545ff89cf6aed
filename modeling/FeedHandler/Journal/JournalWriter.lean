import FeedHandler.Journal.JournalFormat
import FeedHandler.Lib.AppendFile

/-! The journal writer: records are numbered into the active one of two buffers, and a
buffer without room for the next record is written out and exchanged for the other. -/
namespace FeedHandler

open AppendFile

/-- The two buffers of a writer. -/
inductive Half where
  | a | b
  deriving DecidableEq, Repr

def Half.other : Half → Half
  | .a => .b
  | .b => .a

/-- `memcpy` to an offset of a buffer that has room for the bytes. -/
def overwrite (buffer : List UInt8) (offset : Nat) (bytes : List UInt8) : List UInt8 :=
  buffer.take offset ++ (bytes ++ buffer.drop (offset + bytes.length))

structure JournalWriter (Path : Type*) where
  bufferBytes : Nat
  fd : Option Path := none
  bufA : List UInt8 := List.replicate bufferBytes 0
  bufB : List UInt8 := List.replicate bufferBytes 0
  active : Half := .a
  activeUsed : Nat := 0
  nextSeq : UInt64 := 1

/-- A writer and the files it works on. -/
structure JournalSession (Path : Type*) where
  writer : JournalWriter Path
  disk : Disk Path

variable {Path : Type*}

namespace JournalWriter

def buffer (w : JournalWriter Path) : List UInt8 :=
  match w.active with
  | .a => w.bufA
  | .b => w.bufB

/-- The bytes that `flush` has yet to write out. -/
def pending (w : JournalWriter Path) : List UInt8 := w.buffer.take w.activeUsed

/-- The bytes of the next record behind those that the active buffer holds. -/
def putRecord (w : JournalWriter Path) (record : List UInt8) : JournalWriter Path :=
  { w with
    bufA := if w.active = .a then overwrite w.bufA w.activeUsed record else w.bufA
    bufB := if w.active = .b then overwrite w.bufB w.activeUsed record else w.bufB
    activeUsed := w.activeUsed + record.length
    nextSeq := w.nextSeq + 1 }

/-- The record of an event behind those that the active buffer holds. -/
def put (w : JournalWriter Path) (image : EventImage) (ingestTsNs : UInt64) : JournalWriter Path :=
  let record := JournalEntry.bytes ⟨w.nextSeq, ingestTsNs, image⟩
  { w with
    bufA := if w.active = .a then overwrite w.bufA w.activeUsed record else w.bufA
    bufB := if w.active = .b then overwrite w.bufB w.activeUsed record else w.bufB
    activeUsed := w.activeUsed + record.length
    nextSeq := w.nextSeq + 1 }

end JournalWriter

namespace JournalSession

variable [DecidableEq Path]

def flushActiveBuffer (os : Os Path) (s : JournalSession Path) : JournalSession Path :=
  match s.writer.fd with
  | none => s
  | some path =>
    if s.writer.activeUsed = 0 then s
    else
      { writer := { s.writer with active := s.writer.active.other, activeUsed := 0 }
        disk := Disk.writeAll os path s.writer.activeUsed s.disk s.writer.pending }

def append (os : Os Path) (s : JournalSession Path) (o : EventObject) (ingestTsNs : UInt64) :
    JournalSession Path :=
  if s.writer.fd = none then s
  else if s.writer.bufferBytes < s.writer.activeUsed + recordBytes then
    { s.flushActiveBuffer os with
      writer := (s.flushActiveBuffer os).writer.put o.image ingestTsNs }
  else { s with writer := s.writer.put o.image ingestTsNs }

/-- `fsync` changes nothing that a reader sees. -/
def flush (os : Os Path) (s : JournalSession Path) : JournalSession Path := s.flushActiveBuffer os

def close (os : Os Path) (s : JournalSession Path) : JournalSession Path :=
  { s.flushActiveBuffer os with
    writer := { (s.flushActiveBuffer os).writer with
      fd := none
      activeUsed := 0
      active := .a } }

def validateExistingHeader (os : Os Path) (s : JournalSession Path) (path : Path) :
    JournalSession Path × Bool :=
  match s.disk.pread os path journalHeaderBytes with
  | none => (s, false)
  | some header =>
    if header.take 4 ≠ journalMagic then (s, false)
    else if LittleEndian.word32At header 4 ≠ journalVersion then (s, false)
    else
      let dataBytes := (s.disk.content path).length - journalHeaderBytes
      ({ s with
        writer := { s.writer with nextSeq := UInt64.ofNat (dataBytes / recordBytes + 1) } }, true)

def writeHeaderIfNeeded (os : Os Path) (s : JournalSession Path) (path : Path) :
    JournalSession Path × Bool :=
  if (s.disk.content path).length = 0 then
    ({ s with disk := s.disk.write os path journalHeader },
      decide (os.writes s.disk.calls journalHeader.length = journalHeaderBytes))
  else s.validateExistingHeader os path

/-- `JournalWriter::open`. -/
def openFile (os : Os Path) (s : JournalSession Path) (path : Path) : JournalSession Path × Bool :=
  let closed := s.close os
  if os.opens path then
    let checked := writeHeaderIfNeeded os
      { writer := { closed.writer with fd := some path }, disk := closed.disk.create path } path
    if checked.2 then checked else (checked.1.close os, false)
  else (closed, false)

end JournalSession

/-- What a producer asks of an open journal. -/
inductive JournalCall where
  | append (o : EventObject) (ingestTsNs : UInt64)
  | flush

def JournalCall.item : JournalCall → Option (EventObject × UInt64)
  | .append o ingestTsNs => some (o, ingestTsNs)
  | .flush => none

/-- The appended events in order. -/
def appended (calls : List JournalCall) : List (EventObject × UInt64) :=
  calls.filterMap JournalCall.item

/-- The records of a list of events, numbered from `seq` on. -/
def entriesFrom (seq : UInt64) : List (EventObject × UInt64) → List JournalEntry
  | [] => []
  | (o, ingestTsNs) :: rest => ⟨seq, ingestTsNs, o.image⟩ :: entriesFrom (seq + 1) rest

namespace JournalSession

variable [DecidableEq Path]

def call (os : Os Path) (s : JournalSession Path) : JournalCall → JournalSession Path
  | .append o ingestTsNs => s.append os o ingestTsNs
  | .flush => s.flush os

/-- A session from `open` to `close`, with the answer of `open`. -/
def record (os : Os Path) (bufferBytes : Nat) (disk : Disk Path) (path : Path)
    (calls : List JournalCall) : JournalSession Path × Bool :=
  let opened := openFile os { writer := { bufferBytes }, disk } path
  ((calls.foldl (call os) opened.1).close os, opened.2)

end JournalSession

theorem take_overwrite {buffer bytes : List UInt8} {offset : Nat}
    (fits : offset + bytes.length ≤ buffer.length) :
    (overwrite buffer offset bytes).take (offset + bytes.length) = buffer.take offset ++ bytes := by
  have front : (buffer.take offset).length = offset := List.length_take_of_le (by omega)
  rw [overwrite, ← List.append_assoc, List.take_append_of_le_length (by simp [front]),
    List.take_of_length_le (by simp [front])]

theorem length_overwrite {buffer bytes : List UInt8} {offset : Nat}
    (fits : offset + bytes.length ≤ buffer.length) :
    (overwrite buffer offset bytes).length = buffer.length := by
  simp only [overwrite, List.length_append, List.length_take, List.length_drop]
  omega

namespace JournalWriter

variable {w : JournalWriter Path} {image : EventImage} {ingestTsNs : UInt64}

/-- Both buffers have the configured size, and the used part is inside. -/
structure Buffered (w : JournalWriter Path) : Prop where
  sizeA : w.bufA.length = w.bufferBytes
  sizeB : w.bufB.length = w.bufferBytes
  used : w.activeUsed ≤ w.bufferBytes

theorem Buffered.buffer (buffered : Buffered w) : w.buffer.length = w.bufferBytes := by
  simp only [JournalWriter.buffer]
  cases w.active with
  | a => exact buffered.sizeA
  | b => exact buffered.sizeB

theorem Buffered.length_pending (buffered : Buffered w) : w.pending.length = w.activeUsed := by
  have inside := buffered.used
  have size := buffered.buffer
  simp only [pending, List.length_take]
  omega

theorem buffer_putRecord (record : List UInt8) :
    (w.putRecord record).buffer = overwrite w.buffer w.activeUsed record := by
  cases half : w.active <;> simp [putRecord, JournalWriter.buffer, half]

theorem Buffered.putRecord (buffered : Buffered w) {record : List UInt8}
    (fits : w.activeUsed + record.length ≤ w.bufferBytes) : Buffered (w.putRecord record) where
  sizeA := by
    simp only [JournalWriter.putRecord]
    split
    · rw [length_overwrite (by rw [buffered.sizeA]; exact fits)]
      exact buffered.sizeA
    · exact buffered.sizeA
  sizeB := by
    simp only [JournalWriter.putRecord]
    split
    · rw [length_overwrite (by rw [buffered.sizeB]; exact fits)]
      exact buffered.sizeB
    · exact buffered.sizeB
  used := fits

theorem Buffered.pending_putRecord (buffered : Buffered w) {record : List UInt8}
    (fits : w.activeUsed + record.length ≤ w.bufferBytes) :
    (w.putRecord record).pending = w.pending ++ record := by
  simp only [pending, buffer_putRecord]
  exact take_overwrite (by rw [buffered.buffer]; exact fits)

/-- The buffers are sound and a record fits in one. -/
structure Sized (w : JournalWriter Path) : Prop where
  sizeA : w.bufA.length = w.bufferBytes
  sizeB : w.bufB.length = w.bufferBytes
  room : recordBytes ≤ w.bufferBytes
  used : w.activeUsed ≤ w.bufferBytes

theorem sized_new {bufferBytes : Nat} (room : recordBytes ≤ bufferBytes) (fd : Option Path)
    (nextSeq : UInt64) : Sized ({ bufferBytes, fd, nextSeq } : JournalWriter Path) :=
  ⟨List.length_replicate, List.length_replicate, room, Nat.zero_le _⟩

theorem Sized.buffered (sized : Sized w) : Buffered w := ⟨sized.sizeA, sized.sizeB, sized.used⟩

theorem Sized.length_pending (sized : Sized w) : w.pending.length = w.activeUsed :=
  sized.buffered.length_pending

theorem Sized.put (sized : Sized w) (fits : w.activeUsed + recordBytes ≤ w.bufferBytes) :
    Sized (w.put image ingestTsNs) := by
  have put : Buffered (w.putRecord (JournalEntry.bytes ⟨w.nextSeq, ingestTsNs, image⟩)) :=
    sized.buffered.putRecord (by rwa [JournalEntry.length_bytes])
  exact ⟨put.sizeA, put.sizeB, sized.room, put.used⟩

theorem Sized.pending_put (sized : Sized w) (fits : w.activeUsed + recordBytes ≤ w.bufferBytes) :
    (w.put image ingestTsNs).pending =
      w.pending ++ JournalEntry.bytes ⟨w.nextSeq, ingestTsNs, image⟩ :=
  sized.buffered.pending_putRecord (by rwa [JournalEntry.length_bytes])

end JournalWriter

namespace JournalSession

variable {os : Os Path} {s : JournalSession Path} {path : Path} {bytes : List UInt8} {seq : UInt64}

/-- The session writes to `path`: what the file holds and what is pending make up `bytes`,
and the next record gets the number `seq`. -/
structure Writes (s : JournalSession Path) (path : Path) (bytes : List UInt8) (seq : UInt64) :
    Prop where
  fd : s.writer.fd = some path
  sized : s.writer.Sized
  stored : s.disk.content path ++ s.writer.pending = bytes
  nextSeq : s.writer.nextSeq = seq

theorem Writes.put (writes : Writes s path bytes seq)
    (fits : s.writer.activeUsed + recordBytes ≤ s.writer.bufferBytes) (image : EventImage)
    (ingestTsNs : UInt64) :
    Writes { s with writer := s.writer.put image ingestTsNs } path
      (bytes ++ JournalEntry.bytes ⟨seq, ingestTsNs, image⟩) (seq + 1) where
  fd := writes.fd
  sized := writes.sized.put fits
  stored := by
    simp only
    rw [writes.sized.pending_put fits, ← List.append_assoc, writes.stored, writes.nextSeq]
  nextSeq := congrArg (· + 1) writes.nextSeq

variable [DecidableEq Path]

/-- Writing out moves the pending bytes to the file, whatever parts the calls take. -/
theorem Writes.flushed (accepting : os.Accepting) (writes : Writes s path bytes seq) :
    Writes (s.flushActiveBuffer os) path bytes seq ∧
      (s.flushActiveBuffer os).writer.activeUsed = 0 ∧
      (s.flushActiveBuffer os).writer.bufferBytes = s.writer.bufferBytes := by
  simp only [flushActiveBuffer, writes.fd]
  split
  · next unused => exact ⟨writes, unused, rfl⟩
  · have stored := Disk.content_writeAll accepting path writes.sized.length_pending.le s.disk
    refine ⟨⟨rfl, ⟨writes.sized.sizeA, writes.sized.sizeB, writes.sized.room,
      Nat.zero_le _⟩, ?_, writes.nextSeq⟩, rfl, rfl⟩
    simp only [JournalWriter.pending, List.take_zero, List.append_nil]
    exact stored.trans writes.stored

theorem Writes.append (accepting : os.Accepting) (writes : Writes s path bytes seq)
    (o : EventObject) (ingestTsNs : UInt64) :
    Writes (s.append os o ingestTsNs) path
      (bytes ++ JournalEntry.bytes ⟨seq, ingestTsNs, o.image⟩) (seq + 1) := by
  have opened : s.writer.fd ≠ none := by simp [writes.fd]
  obtain ⟨flushed, unused, size⟩ := writes.flushed accepting
  have room := writes.sized.room
  simp only [JournalSession.append, if_neg opened]
  split
  · exact flushed.put (by omega) o.image ingestTsNs
  · exact writes.put (by omega) o.image ingestTsNs

/-- Run lemma: the records of the appended events follow each other, wherever the
buffers end and flushes fall. -/
theorem Writes.run (accepting : os.Accepting) (calls : List JournalCall)
    (writes : Writes s path bytes seq) :
    ∃ last, Writes (calls.foldl (call os) s) path
      (bytes ++ entriesBytes (entriesFrom seq (appended calls))) last := by
  induction calls generalizing s bytes seq with
  | nil => exact ⟨seq, by simpa [appended, entriesFrom, entriesBytes] using writes⟩
  | cons first rest ih =>
    cases first with
    | append o ingestTsNs =>
      have next := ih (writes.append accepting o ingestTsNs)
      simpa [call, appended, JournalCall.item, entriesFrom, entriesBytes] using next
    | flush => exact ih (writes.flushed accepting).1

theorem Writes.close (accepting : os.Accepting) (writes : Writes s path bytes seq) :
    (s.close os).disk.content path = bytes := by
  obtain ⟨flushed, unused, _⟩ := writes.flushed accepting
  have stored := flushed.stored
  rwa [JournalWriter.pending, unused, List.take_zero, List.append_nil] at stored

theorem flushActiveBuffer_closed (os : Os Path) (closed : s.writer.fd = none) : s.flushActiveBuffer os = s := by
  simp only [flushActiveBuffer, closed]

/-- Without a descriptor nothing is written. -/
theorem closed_run (closed : s.writer.fd = none) (calls : List JournalCall) :
    calls.foldl (call os) s = s := by
  have idle := flushActiveBuffer_closed os closed
  induction calls with
  | nil => rfl
  | cons first rest ih =>
    cases first with
    | append o ingestTsNs => simpa [call, JournalSession.append, closed] using ih
    | flush => simpa [call, flush, idle] using ih

section Record

variable {bufferBytes : Nat} {disk : Disk Path} (calls : List JournalCall)

/-- A new writer that has got its descriptor and not yet looked at the file. -/
def unchecked (bufferBytes : Nat) (disk : Disk Path) (path : Path) : JournalSession Path where
  writer := { bufferBytes, fd := some path }
  disk := disk.create path

theorem openFile_new (granted : os.opens path = true) :
    openFile os { writer := { bufferBytes }, disk } path =
      if ((unchecked bufferBytes disk path).writeHeaderIfNeeded os path).2 then
        (unchecked bufferBytes disk path).writeHeaderIfNeeded os path
      else (((unchecked bufferBytes disk path).writeHeaderIfNeeded os path).1.close os, false) := by
  simp only [openFile, JournalSession.close, flushActiveBuffer, granted, if_true]
  rfl

/-- The new writer after it has offered the header to the system. -/
def headed (os : Os Path) (bufferBytes : Nat) (disk : Disk Path) (path : Path) :
    JournalSession Path where
  writer := { bufferBytes, fd := some path }
  disk := (disk.create path).write os path journalHeader

theorem writeHeaderIfNeeded_fresh (os : Os Path) (bufferBytes : Nat) (fresh : disk.content path = []) :
    (unchecked bufferBytes disk path).writeHeaderIfNeeded os path =
      (headed os bufferBytes disk path,
        decide (os.writes disk.calls journalHeaderBytes = journalHeaderBytes)) := by
  have empty : ((unchecked bufferBytes disk path).disk.content path).length = 0 := by
    rw [unchecked, Disk.content_create, fresh, List.length_nil]
  rw [writeHeaderIfNeeded, if_pos empty]
  rfl

theorem content_headed (fresh : disk.content path = []) :
    (headed os bufferBytes disk path).disk.content path =
      journalHeader.take (os.writes disk.calls journalHeaderBytes).toNat := by
  rw [headed, Disk.content_write, Disk.content_create, fresh, List.nil_append]
  rfl

theorem headed_writes (fresh : disk.content path = []) (room : recordBytes ≤ bufferBytes)
    (taken : os.writes disk.calls journalHeaderBytes = journalHeaderBytes) :
    Writes (headed os bufferBytes disk path) path journalHeader 1 where
  fd := rfl
  sized := JournalWriter.sized_new room _ _
  stored := by
    rw [content_headed fresh, taken]
    exact List.append_nil journalHeader
  nextSeq := rfl

/-- A session whose header check succeeds stores every record it is given. -/
theorem record_accepted (accepting : os.Accepting) (granted : os.opens path = true)
    {checked : JournalSession Path}
    (header : (unchecked bufferBytes disk path).writeHeaderIfNeeded os path = (checked, true))
    (writes : Writes checked path bytes seq) :
    (record os bufferBytes disk path calls).2 = true ∧
      (record os bufferBytes disk path calls).1.disk.content path =
        bytes ++ entriesBytes (entriesFrom seq (appended calls)) := by
  obtain ⟨last, written⟩ := writes.run accepting calls
  simp only [record, openFile_new granted, header, if_true]
  exact ⟨trivial, written.close accepting⟩

/-- A session whose header check fails stores nothing more. -/
theorem record_refused (granted : os.opens path = true) {checked : JournalSession Path}
    (header : (unchecked bufferBytes disk path).writeHeaderIfNeeded os path = (checked, false))
    (unused : checked.writer.activeUsed = 0) :
    (record os bufferBytes disk path calls).2 = false ∧
      (record os bufferBytes disk path calls).1.disk = checked.disk := by
  have idle : checked.flushActiveBuffer os = checked := by
    simp only [flushActiveBuffer, unused, if_true]
    cases checked.writer.fd <;> rfl
  have closed : (checked.close os).writer.fd = none := rfl
  simp only [record, openFile_new granted, header, Bool.false_eq_true, if_false,
    closed_run closed]
  refine ⟨trivial, ?_⟩
  simp only [JournalSession.close, idle]
  rw [flushActiveBuffer_closed os rfl]

end Record

end JournalSession
end FeedHandler
