import FeedHandler.Journal.JournalWriter
import FeedHandler.Lib.Run

/-! Buffered writers of numbered records. Both journal writers put records of one size into
the same pair of buffers; they differ in the records, in the header and in what `open` does
with a file that exists. The number of the next record is a member of the writer, so a file
is numbered from 1 only if that member stands at 1 when its header is written. -/
namespace FeedHandler

open AppendFile

/-- A format of numbered records of one size behind a header. -/
structure RecordFormat (Item : Type*) where
  header : List UInt8
  record : UInt64 → Item → List UInt8
  recordSize : Nat
  some_header : header ≠ []
  length_record : ∀ seq item, (record seq item).length = recordSize

namespace RecordFormat

variable {Item : Type*} (format : RecordFormat Item)

def recordsFrom (format : RecordFormat Item) (seq : UInt64) : List Item → List UInt8
  | [] => []
  | item :: rest => format.record seq item ++ recordsFrom format (seq + 1) rest

/-- The file is empty, or its records are numbered 1, 2, 3 and so on. -/
def Numbered (content : List UInt8) : Prop :=
  content = [] ∨ ∃ items, content = format.header ++ format.recordsFrom 1 items

theorem recordsFrom_append (seq : UInt64) (xs ys : List Item) :
    format.recordsFrom seq (xs ++ ys) =
      format.recordsFrom seq xs ++ format.recordsFrom (seq + UInt64.ofNat xs.length) ys := by
  induction xs generalizing seq with
  | nil => simp [recordsFrom]
  | cons x xs ih =>
    have further : seq + 1 + UInt64.ofNat xs.length = seq + UInt64.ofNat (xs.length + 1) := by
      rw [UInt64.ofNat_add, UInt64.add_assoc, UInt64.add_comm 1]
      rfl
    rw [List.cons_append, recordsFrom, recordsFrom, ih, List.append_assoc, List.length_cons, further]

theorem length_recordsFrom (seq : UInt64) (items : List Item) :
    (format.recordsFrom seq items).length = items.length * format.recordSize := by
  induction items generalizing seq with
  | nil => simp [recordsFrom]
  | cons item rest ih =>
    rw [recordsFrom, List.length_append, ih, format.length_record, List.length_cons, Nat.succ_mul,
      Nat.add_comm]

end RecordFormat

variable {Path : Type*} {Item : Type*} {format : RecordFormat Item}

namespace JournalSession

variable {s : JournalSession Path}

/-- What every call on a writer keeps: all files are numbered, the pending records follow
those of the open file, and the next number follows the pending ones. -/
structure Keeps (format : RecordFormat Item) (s : JournalSession Path) : Prop where
  buffered : s.writer.Buffered
  room : format.recordSize ≤ s.writer.bufferBytes
  others : ∀ path, s.writer.fd ≠ some path → format.Numbered (s.disk.content path)
  current : ∀ path, s.writer.fd = some path → ∃ stored pending,
    s.disk.content path = format.header ++ format.recordsFrom 1 stored ∧
      s.writer.pending = format.recordsFrom (1 + UInt64.ofNat stored.length) pending ∧
        s.writer.nextSeq = 1 + UInt64.ofNat (stored ++ pending).length

theorem Keeps.numbered (keeps : Keeps format s) (path : Path) :
    format.Numbered (s.disk.content path) := by
  by_cases opened : s.writer.fd = some path
  · obtain ⟨stored, _, content, _⟩ := keeps.current path opened
    exact .inr ⟨stored, content⟩
  · exact keeps.others path opened

theorem Keeps.put (keeps : Keeps format s)
    (fits : s.writer.activeUsed + format.recordSize ≤ s.writer.bufferBytes) (item : Item) :
    Keeps format
      { s with writer := s.writer.putRecord (format.record s.writer.nextSeq item) } := by
  have sized : s.writer.activeUsed + (format.record s.writer.nextSeq item).length ≤
      s.writer.bufferBytes := by rwa [format.length_record]
  refine ⟨keeps.buffered.putRecord sized, keeps.room, keeps.others, ?_⟩
  intro path opened
  obtain ⟨stored, pending, content, held, next⟩ := keeps.current path opened
  refine ⟨stored, pending ++ [item], content, ?_, ?_⟩
  · have number : 1 + UInt64.ofNat stored.length + UInt64.ofNat pending.length =
        s.writer.nextSeq := by
      rw [next, List.length_append, UInt64.ofNat_add, UInt64.add_assoc]
    rw [keeps.buffered.pending_putRecord sized, held, format.recordsFrom_append, number]
    simp [RecordFormat.recordsFrom]
  · have count : (stored ++ (pending ++ [item])).length = (stored ++ pending).length + 1 := by
      simp only [List.length_append, List.length_singleton]
      omega
    have following : s.writer.nextSeq + 1 =
        1 + UInt64.ofNat (stored ++ (pending ++ [item])).length := by
      rw [next, count, UInt64.ofNat_add, ← UInt64.add_assoc]
      rfl
    exact following

/-- A new writer among numbered files. -/
theorem keeps_new {bufferBytes : Nat}
    (room : format.recordSize ≤ bufferBytes) {disk : Disk Path}
    (files : ∀ path, format.Numbered (disk.content path)) :
    Keeps format { writer := { bufferBytes }, disk } where
  buffered := ⟨List.length_replicate, List.length_replicate, Nat.zero_le _⟩
  room := room
  others := fun path _ => files path
  current := fun _ opened => absurd opened (by simp)

/-- A closed writer leaves numbered files behind. -/
structure Closed (format : RecordFormat Item) (s : JournalSession Path) : Prop where
  fd : s.writer.fd = none
  unused : s.writer.activeUsed = 0
  buffered : s.writer.Buffered
  room : format.recordSize ≤ s.writer.bufferBytes
  files : ∀ path, format.Numbered (s.disk.content path)

theorem Closed.keeps (closed : Closed format s) : Keeps format s where
  buffered := closed.buffered
  room := closed.room
  others := fun path _ => closed.files path
  current := by
    intro path opened
    rw [closed.fd] at opened
    contradiction

/-- A closed writer that has got the descriptor of a file. -/
def granted (s : JournalSession Path) (path : Path) (disk : Disk Path) : JournalSession Path where
  writer := { s.writer with fd := some path }
  disk := disk

/-- Behind its header the file begins a numbering if the writer stands at 1. -/
theorem Closed.headed (closed : Closed format s) {path : Path} {disk : Disk Path}
    (others : ∀ other, other ≠ path → disk.content other = s.disk.content other)
    (content : disk.content path = format.header) (fresh : s.writer.nextSeq = 1) :
    Keeps format (s.granted path disk) where
  buffered := ⟨closed.buffered.sizeA, closed.buffered.sizeB, closed.buffered.used⟩
  room := closed.room
  others := by
    intro other apart
    have differs : other ≠ path := fun same => apart (congrArg some same.symm)
    simp only [granted]
    rw [others other differs]
    exact closed.files other
  current := by
    intro current same
    simp only [granted, Option.some.injEq] at same
    subst same
    refine ⟨[], [], ?_, ?_, fresh⟩
    · simp [granted, content, RecordFormat.recordsFrom]
    · simp [granted, JournalWriter.pending, closed.unused, RecordFormat.recordsFrom]

section Calls

variable [DecidableEq Path] {os : Os Path}

/-- `append` of a record of the format. -/
def appendRecord (format : RecordFormat Item) (os : Os Path) (s : JournalSession Path)
    (item : Item) : JournalSession Path :=
  if s.writer.fd = none then s
  else if s.writer.bufferBytes < s.writer.activeUsed + format.recordSize then
    { s.flushActiveBuffer os with
      writer := (s.flushActiveBuffer os).writer.putRecord
        (format.record (s.flushActiveBuffer os).writer.nextSeq item) }
  else { s with writer := s.writer.putRecord (format.record s.writer.nextSeq item) }

/-- Writing out stores the pending records. -/
theorem Keeps.flushed (accepting : os.Accepting) (keeps : Keeps format s) :
    Keeps format (s.flushActiveBuffer os) ∧
      (s.writer.fd ≠ none → (s.flushActiveBuffer os).writer.activeUsed = 0) := by
  rw [flushActiveBuffer]
  cases opened : s.writer.fd with
  | none => exact ⟨keeps, fun some_path => absurd rfl some_path⟩
  | some path =>
    simp only
    split
    · next unused => exact ⟨keeps, fun _ => unused⟩
    · have size := keeps.buffered.length_pending
      refine ⟨⟨⟨keeps.buffered.sizeA, keeps.buffered.sizeB, Nat.zero_le _⟩, keeps.room, ?_, ?_⟩,
        fun _ => rfl⟩
      · intro other apart
        simp only [opened] at apart ⊢
        have differs : other ≠ path := fun same => apart (congrArg some same.symm)
        rw [Disk.content_writeAll_other differs]
        exact keeps.others other (opened ▸ apart)
      · intro current same
        simp only [opened, Option.some.injEq] at same
        subst same
        obtain ⟨stored, pending, content, held, next⟩ := keeps.current path opened
        refine ⟨stored ++ pending, [], ?_, ?_, ?_⟩
        · rw [Disk.content_writeAll accepting path size.le, content, held,
            format.recordsFrom_append, List.append_assoc]
        · simp [JournalWriter.pending, RecordFormat.recordsFrom]
        · rw [List.append_nil]
          exact next

/-- An appended record gets the number behind the last one. -/
theorem Keeps.append (accepting : os.Accepting) (keeps : Keeps format s) (item : Item) :
    Keeps format (s.appendRecord format os item) := by
  rw [appendRecord]
  split
  · exact keeps
  · next opened =>
    obtain ⟨flushed, unused⟩ := keeps.flushed accepting
    split
    · apply flushed.put
      rw [unused opened, Nat.zero_add]
      exact flushed.room
    · exact keeps.put (by omega) item

theorem Keeps.close (accepting : os.Accepting) (keeps : Keeps format s) :
    Closed format (s.close os) := by
  obtain ⟨flushed, _⟩ := keeps.flushed accepting
  exact ⟨rfl, rfl, ⟨flushed.buffered.sizeA, flushed.buffered.sizeB, Nat.zero_le _⟩, flushed.room,
    flushed.numbered⟩

theorem nextSeq_flushActiveBuffer : (s.flushActiveBuffer os).writer.nextSeq = s.writer.nextSeq := by
  rw [flushActiveBuffer]
  split
  · rfl
  · split <;> rfl

/-- A file that is empty behind a `close` was empty before it. -/
theorem Keeps.content_close (accepting : os.Accepting) (keeps : Keeps format s) {path : Path}
    (empty : (s.close os).disk.content path = []) : s.disk.content path = [] := by
  have after : (s.flushActiveBuffer os).disk.content path = [] := empty
  by_cases opened : s.writer.fd = some path
  · obtain ⟨stored, _, content, _⟩ := (keeps.flushed accepting).1.current path (by
      rw [flushActiveBuffer, opened]
      simp only
      split
      · exact opened
      · exact opened)
    rw [content] at after
    exact absurd (List.append_eq_nil_iff.mp after).1 format.some_header
  · rw [flushActiveBuffer] at after
    cases current : s.writer.fd with
    | none =>
      simp only [current] at after
      exact after
    | some other =>
      simp only [current] at after
      split at after
      · exact after
      · have apart : path ≠ other := fun same => opened (same ▸ current)
        rwa [Disk.content_writeAll_other apart] at after

/-- Giving the descriptor back leaves the files as they are. -/
theorem Closed.refused (closed : Closed format s) {path : Path} {disk : Disk Path}
    (files : ∀ other, disk.content other = s.disk.content other) :
    Closed format ((s.granted path disk).close os) := by
  have idle : (s.granted path disk).flushActiveBuffer os = s.granted path disk := by
    rw [flushActiveBuffer]
    simp only [granted, closed.unused, if_true]
  refine ⟨rfl, rfl, ?_, ?_, ?_⟩
  · rw [JournalSession.close, idle]
    exact ⟨closed.buffered.sizeA, closed.buffered.sizeB, Nat.zero_le _⟩
  · rw [JournalSession.close, idle]
    exact closed.room
  · intro other
    rw [JournalSession.close, idle]
    exact (files other).symm ▸ closed.files other

end Calls

end JournalSession

/-- The calls that a producer makes on a writer. -/
inductive WriterCall (Path Item : Type*) where
  | openFile (path : Path)
  | append (item : Item)
  | flush
  | close

end FeedHandler
