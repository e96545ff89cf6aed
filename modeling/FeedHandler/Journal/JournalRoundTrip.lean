import FeedHandler.Journal.JournalWriter
import FeedHandler.Journal.JournalReader

/-! What is appended to a fresh journal is read back from it. Records are offered to the
system until they are stored; the header is offered once, so the round trip depends on
that one call taking all of it. -/
namespace FeedHandler

open AppendFile

/-- The appended events are read back as they are, in order and numbered from 1. -/
structure RoundTrip (items : List (EventObject × UInt64)) (read : JournalRead) : Prop where
  opened : read.opened = true
  records : read.entries.map (fun e => (e.image.event?, e.ingestTsNs, e.monotonicSeq)) =
    items.mapIdx (fun i item => (some item.1.event, item.2, UInt64.ofNat (i + 1)))
  images : read.entries.map (·.image) = items.map (·.1.image)
  recordsRead : read.reader.stats.recordsRead = items.length
  crcFailures : read.reader.stats.crcFailures = 0
  hadError : read.reader.hadError = false
  errorReason : read.reader.errorReason = none

theorem entriesFrom_eq (seq : UInt64) (items : List (EventObject × UInt64)) :
    entriesFrom seq items =
      items.mapIdx (fun i item => ⟨seq + UInt64.ofNat i, item.2, item.1.image⟩) := by
  induction items generalizing seq with
  | nil => rfl
  | cons item rest ih =>
    have following : ∀ i, seq + 1 + UInt64.ofNat i = seq + UInt64.ofNat (i + 1) := by
      intro i
      rw [UInt64.ofNat_add, UInt64.add_assoc, UInt64.add_comm 1]
      rfl
    simp only [entriesFrom, ih, List.mapIdx_cons, following]
    simp

/-- Reading a journal of whole records gives back what they were made from. -/
theorem round_trip_whole (items : List (EventObject × UInt64)) :
    RoundTrip items
      (JournalReader.readFile (some (journalHeader ++ entriesBytes (entriesFrom 1 items)))) := by
  have entries := entriesFrom_eq 1 items
  rw [JournalReader.readFile_whole]
  constructor
  · rfl
  · have number : ∀ i, (1 : UInt64) + UInt64.ofNat i = UInt64.ofNat (i + 1) := by
      intro i
      rw [UInt64.ofNat_add, UInt64.add_comm]
      rfl
    apply List.ext_getElem?
    intro i
    simp [entries, Function.comp_def, EventObject.event?_image, number]
  · apply List.ext_getElem?
    intro i
    simp [entries, Function.comp_def]
  · simp [JournalReader.advanced, JournalReader.atStart, entries]
  · rfl
  · rfl
  · rfl

variable {Path : Type*} [DecidableEq Path]

/-- On a fresh file, whatever the sizes of the buffers, wherever the flushes fall and
whatever parts the write calls take, the journal is read back as it was appended exactly
if the first call takes the whole header. -/
theorem round_trip_iff (os : Os Path) (accepting : os.Accepting) (path : Path)
    (granted : os.opens path = true) (disk : Disk Path) (fresh : disk.content path = [])
    (bufferBytes : Nat) (room : recordBytes ≤ bufferBytes) (calls : List JournalCall) :
    let session := (JournalSession.record os bufferBytes disk path calls).1
    RoundTrip (appended calls) (JournalReader.readFile (session.disk.files path)) ↔
      os.writes disk.calls journalHeaderBytes = journalHeaderBytes := by
  intro session
  have checked := JournalSession.writeHeaderIfNeeded_fresh os bufferBytes fresh
  by_cases taken : os.writes disk.calls journalHeaderBytes = journalHeaderBytes
  · rw [decide_eq_true taken] at checked
    obtain ⟨_, content⟩ := JournalSession.record_accepted calls accepting granted checked
      (JournalSession.headed_writes fresh room taken)
    have file := Disk.files_eq content (List.append_ne_nil_of_left_ne_nil (by decide) _)
    rw [file]
    exact iff_of_true (round_trip_whole (appended calls)) taken
  · rw [decide_eq_false taken] at checked
    obtain ⟨_, refused⟩ := JournalSession.record_refused calls granted checked rfl
    -- the file keeps the part of the header that the call has taken
    have some_taken := accepting.some_taken disk.calls journalHeaderBytes (by decide)
    have no_more := accepting.no_more disk.calls journalHeaderBytes (by decide)
    have content : session.disk.content path = _ :=
      (congrArg (fun d : Disk Path => d.content path) refused).trans
        (JournalSession.content_headed fresh)
    have size : (session.disk.content path).length =
        (os.writes disk.calls journalHeaderBytes).toNat := by
      have header : journalHeader.length = journalHeaderBytes := rfl
      rw [content, List.length_take]
      omega
    have stored : session.disk.content path ≠ [] := List.ne_nil_of_length_pos (by omega)
    have file := Disk.files_eq rfl stored
    have torn := JournalReader.readFile_torn_header
      (show (session.disk.content path).length < journalHeaderBytes by omega)
    rw [file]
    refine iff_of_false (fun round => ?_) taken
    exact absurd (torn.symm.trans round.opened) Bool.false_ne_true

/-- The header in one call and then one byte a call, with a flush between two events. -/
theorem round_trip_iff_byte_by_byte :
    let calls := [.append { event := { sequence := 7 } } 70, .flush, .append { event := {} } 80]
    let session :=
      (JournalSession.record (.partialWrites false 8 1) 112 { files := fun _ => none } () calls).1
    RoundTrip (appended calls) (JournalReader.readFile (session.disk.files ())) :=
  (round_trip_iff (.partialWrites false 8 1)
    (Os.partialWrites_accepting (by decide) (by decide)) () rfl { files := fun _ => none } rfl 112 (by decide)
    [.append { event := { sequence := 7 } } 70, .flush, .append { event := {} } 80]).mpr rfl

/-- The first call takes five of the eight bytes of the header, every later one all it is
offered: the writer gives up and the reader refuses the file. -/
theorem five_header_bytes_lose_journal :
    let os : Os Unit := .partialWrites false 5 1000
    let calls := [.append { event := { sequence := 7 } } 70]
    let session := JournalSession.record os 112 { files := fun _ => none } () calls
    os.Accepting ∧ session.2 = false ∧ session.1.disk.files () = some (journalHeader.take 5) ∧
      ¬ RoundTrip (appended calls) (JournalReader.readFile (session.1.disk.files ())) := by
  refine ⟨Os.partialWrites_accepting (by decide) (by decide), by decide, by decide,
    fun round => ?_⟩
  exact absurd round.opened (by decide)

end FeedHandler
