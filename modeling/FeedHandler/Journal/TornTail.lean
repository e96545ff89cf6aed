import FeedHandler.Journal.JournalWriter
import FeedHandler.Journal.JournalReader

/-! Appending to a journal whose last record a crash has cut off. The writer checks the
header through a descriptor that it has opened for writing only, and it appends behind the
torn record instead of removing it, so the reader's stride no longer meets the new records. -/
namespace FeedHandler

open AppendFile

variable {Path : Type*} [DecidableEq Path]

namespace JournalSession

variable {disk : Disk Path} {path : Path} {bufferBytes : Nat} {old : List JournalEntry}
  {torn : List UInt8}

/-- The new writer after it has found a header and counted the whole records behind it. -/
def resumed (bufferBytes : Nat) (disk : Disk Path) (path : Path) (records : Nat) :
    JournalSession Path where
  writer := { bufferBytes, fd := some path, nextSeq := UInt64.ofNat (records + 1) }
  disk := disk.create path

theorem writeHeaderIfNeeded_existing (os : Os Path) (bufferBytes : Nat)
    (short : torn.length < recordBytes)
    (stored : disk.content path = journalHeader ++ (entriesBytes old ++ torn)) :
    (unchecked bufferBytes disk path).writeHeaderIfNeeded os path =
      if os.readsWriteOnly then (resumed bufferBytes disk path old.length, true)
      else (unchecked bufferBytes disk path, false) := by
  have content : (unchecked bufferBytes disk path).disk.content path = _ :=
    (Disk.content_create disk path).trans stored
  have header : journalHeader.length = journalHeaderBytes := rfl
  have size : (journalHeader ++ (entriesBytes old ++ torn)).length =
      journalHeaderBytes + (old.length * recordBytes + torn.length) := by
    rw [List.length_append, List.length_append, length_entriesBytes, header]
  have counted : (old.length * recordBytes + torn.length) / recordBytes = old.length := by
    rw [Nat.mul_comm, Nat.mul_add_div (by decide), Nat.div_eq_of_lt short, Nat.add_zero]
  have front : (journalHeader ++ (entriesBytes old ++ torn)).take journalHeaderBytes =
      journalHeader := List.take_left' header
  have used : ¬ (journalHeader ++ (entriesBytes old ++ torn)).length = 0 := by
    rw [size, journalHeaderBytes]
    omega
  rw [writeHeaderIfNeeded, content, if_neg used, validateExistingHeader, Disk.pread, content, front,
    size]
  cases os.readsWriteOnly with
  | false => simp
  | true =>
    have magic : journalHeader.take 4 = journalMagic := by decide
    have version : LittleEndian.word32At journalHeader 4 = journalVersion := by decide
    simp only [Bool.true_and, Nat.le_add_right, decide_true, if_true, magic, version, ne_eq,
      not_true, if_false, Nat.add_sub_cancel_left, counted]
    rfl

theorem resumed_writes (room : recordBytes ≤ bufferBytes) (records : Nat) :
    Writes (resumed bufferBytes disk path records) path (disk.content path)
      (UInt64.ofNat (records + 1)) where
  fd := rfl
  sized := JournalWriter.sized_new room _ _
  stored := by simp [resumed, JournalWriter.pending]
  nextSeq := rfl

end JournalSession

/-- What a session appends behind a torn record is read back exactly if it begins with the
torn bytes over and over: a reader that hands out all of it has taken every stride. -/
theorem torn_entries_iff (old new : List JournalEntry) {torn : List UInt8}
    (short : torn.length < recordBytes) :
    (JournalReader.readFile
        (some (journalHeader ++ (entriesBytes old ++ torn ++ entriesBytes new)))).entries =
      old ++ new ↔ entriesBytes new <+: torn ++ entriesBytes new := by
  constructor
  · intro read
    obtain ⟨rest, same⟩ := JournalReader.readFile_full
      (show (entriesBytes old ++ torn ++ entriesBytes new).length < _ by
        rw [read]
        simp only [List.length_append, length_entriesBytes, Nat.succ_mul, Nat.add_mul]
        omega)
    rw [read, entriesBytes_append, List.append_assoc, List.append_assoc] at same
    exact ⟨rest, (List.append_cancel_left same).symm⟩
  · rintro ⟨rest, same⟩
    have size := congrArg List.length same
    rw [List.length_append, List.length_append] at size
    apply JournalReader.readFile_short
    · rw [entriesBytes_append, List.append_assoc, List.append_assoc, same]
    · omega

/-- A session on a journal with a torn record at its end opens and has its records read
back behind the old ones exactly if the system reads through a descriptor for writing and
the torn bytes do not shift the new records. -/
theorem torn_tail_iff (os : Os Path) (accepting : os.Accepting) (path : Path)
    (granted : os.opens path = true) (disk : Disk Path) (old : List JournalEntry)
    (cut : JournalEntry) (torn : List UInt8) (begun : torn <+: cut.bytes)
    (strict : torn ≠ cut.bytes)
    (stored : disk.files path = some (journalHeader ++ (entriesBytes old ++ torn)))
    (bufferBytes : Nat) (room : recordBytes ≤ bufferBytes) (calls : List JournalCall) :
    let session := JournalSession.record os bufferBytes disk path calls
    let new := entriesFrom (UInt64.ofNat (old.length + 1)) (appended calls)
    (session.2 = true ∧
        (JournalReader.readFile (session.1.disk.files path)).entries = old ++ new) ↔
      os.readsWriteOnly = true ∧ entriesBytes new <+: torn ++ entriesBytes new := by
  intro session new
  have short : torn.length < recordBytes := by
    rw [← cut.length_bytes]
    exact lt_of_le_of_ne begun.length_le (fun same => strict (begun.eq_of_length same))
  have held : disk.content path = journalHeader ++ (entriesBytes old ++ torn) := by
    rw [Disk.content, stored, Option.getD_some]
  have checked := JournalSession.writeHeaderIfNeeded_existing os bufferBytes short held
  cases reads : os.readsWriteOnly with
  | false =>
    rw [reads] at checked
    obtain ⟨refused, _⟩ := JournalSession.record_refused calls granted checked rfl
    exact iff_of_false (fun both => absurd (refused.symm.trans both.1) Bool.false_ne_true)
      (fun both => absurd both.1 Bool.false_ne_true)
  | true =>
    rw [reads] at checked
    obtain ⟨opened, content⟩ := JournalSession.record_accepted calls accepting granted checked
      (JournalSession.resumed_writes room old.length)
    rw [held, List.append_assoc] at content
    have file := Disk.files_eq content (List.append_ne_nil_of_left_ne_nil (by decide) _)
    rw [file, ← torn_entries_iff old new short]
    exact and_congr_left' (iff_of_true opened rfl)

/-- An image of the event with the given sequence. -/
def sampleImage (sequence : UInt64) : EventImage := EventObject.image { event := { sequence } }

/-- A journal of one record and the record header and eight payload bytes of another. -/
def tornDisk : Disk Unit where
  files := fun _ => some (journalHeader ++ (entriesBytes [⟨1, 42, sampleImage 1⟩] ++
    (JournalEntry.bytes ⟨2, 43, sampleImage 2⟩).take 32))

/-- With the answer of POSIX neither side holds. -/
theorem torn_tail_iff_refused :
    let os : Os Unit := .partialWrites false 1000 1000
    let calls := [.append { event := { sequence := 2 } } 43]
    let old : List JournalEntry := [⟨1, 42, sampleImage 1⟩]
    let torn := (JournalEntry.bytes ⟨2, 43, sampleImage 2⟩).take 32
    let session := JournalSession.record os 112 tornDisk () calls
    let new := entriesFrom (UInt64.ofNat (old.length + 1)) (appended calls)
    (session.2 = true ∧
        (JournalReader.readFile (session.1.disk.files ())).entries = old ++ new) ↔
      os.readsWriteOnly = true ∧ entriesBytes new <+: torn ++ entriesBytes new := by
  intro os calls old torn
  have strict : torn ≠ JournalEntry.bytes ⟨2, 43, sampleImage 2⟩ := by
    intro same
    have size := congrArg List.length same
    rw [List.length_take, JournalEntry.length_bytes] at size
    exact absurd size (by decide)
  exact torn_tail_iff os (Os.partialWrites_accepting (by decide) (by decide)) () rfl tornDisk old
    ⟨2, 43, sampleImage 2⟩ torn (List.take_prefix 32 _) strict rfl 112 (by decide) calls

/-- The record of a session behind a torn one is lost: where the system refuses to read the
header, because the session never opens; where it does not, because the torn record and the
front of the new one make up a stride with a wrong checksum. -/
theorem torn_tail_loses_record :
    let calls := [.append { event := { sequence := 2 } } 43]
    let refused := JournalSession.record (.partialWrites false 1000 1000) 112 tornDisk () calls
    let misaligned := JournalSession.record (.partialWrites true 1000 1000) 112 tornDisk () calls
    refused.2 = false ∧
      (JournalReader.readFile (refused.1.disk.files ())).entries = [⟨1, 42, sampleImage 1⟩] ∧
    misaligned.2 = true ∧
      (JournalReader.readFile (misaligned.1.disk.files ())).entries = [⟨1, 42, sampleImage 1⟩] := by
  decide +kernel

end FeedHandler
