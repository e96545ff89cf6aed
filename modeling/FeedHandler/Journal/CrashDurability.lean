import FeedHandler.Journal.Mdp3Replay

/-! A journal whose system stops taking its bytes at some call: the process is gone or the disk
is full. What the file holds then is read back as the first records that were appended. -/
namespace FeedHandler

open AppendFile

variable {Path : Type*}

namespace JournalSession

variable {os : Os Path} {s : JournalSession Path} {path : Path} {bytes : List UInt8} {seq : UInt64}
  {stop : Nat}

/-- `bytes` have been given to the writer. As long as the system takes what it is offered they
are in the file and the buffer; in any case the file starts like them. -/
structure Endures (stop : Nat) (s : JournalSession Path) (path : Path) (bytes : List UInt8)
    (seq : UInt64) : Prop where
  fd : s.writer.fd = some path
  sized : s.writer.Sized
  whole : recordBytes ∣ s.writer.activeUsed
  nextSeq : s.writer.nextSeq = seq
  running : s.disk.calls ≤ stop → s.disk.content path ++ s.writer.pending = bytes
  front : s.disk.content path <+: bytes

theorem Endures.put (endures : Endures stop s path bytes seq)
    (fits : s.writer.activeUsed + recordBytes ≤ s.writer.bufferBytes) (image : EventImage)
    (ingestTsNs : UInt64) :
    Endures stop { s with writer := s.writer.put image ingestTsNs } path
      (bytes ++ JournalEntry.bytes ⟨seq, ingestTsNs, image⟩) (seq + 1) where
  fd := endures.fd
  sized := endures.sized.put fits
  whole := by
    simp only [JournalWriter.put, JournalEntry.length_bytes]
    exact Nat.dvd_add endures.whole (Nat.dvd_refl _)
  nextSeq := congrArg (· + 1) endures.nextSeq
  running := by
    intro takes
    simp only
    rw [endures.sized.pending_put fits, ← List.append_assoc, endures.running takes,
      endures.nextSeq]
  front := endures.front.trans (List.prefix_append _ _)

variable [DecidableEq Path]

/-- Writing out adds an initial part of the buffer to the file, and all of it unless the system
stops. -/
theorem Endures.flushed (stops : os.StopsAt stop) (endures : Endures stop s path bytes seq) :
    let after := s.flushActiveBuffer os
    Endures stop after path bytes seq ∧ after.writer.activeUsed = 0 ∧
      after.writer.bufferBytes = s.writer.bufferBytes ∧ s.disk.calls ≤ after.disk.calls ∧
      s.disk.content path <+: after.disk.content path := by
  simp only [flushActiveBuffer, endures.fd]
  split
  · next unused => exact ⟨endures, unused, rfl, Nat.le_refl _, List.prefix_refl _⟩
  · obtain ⟨later, kept, part, stored, all, none⟩ :=
      Disk.content_writeAll_stopping stops path endures.sized.length_pending.le s.disk
    refine ⟨⟨rfl, ⟨endures.sized.sizeA, endures.sized.sizeB, endures.sized.room, Nat.zero_le _⟩,
      Nat.dvd_zero _, endures.nextSeq, ?_, ?_⟩, rfl, rfl, later, ?_⟩
    · intro takes
      have stores := endures.running (later.trans takes)
      rw [← all takes, ← stored] at stores
      exact (List.append_nil _).trans stores
    · simp only
      rw [stored]
      by_cases takes : s.disk.calls ≤ stop
      · rw [← endures.running takes]
        exact (List.prefix_append_right_inj _).mpr part
      · rw [none (by omega), List.append_nil]
        exact endures.front
    · simp only
      rw [stored]
      exact List.prefix_append _ _

theorem Endures.append (stops : os.StopsAt stop) (endures : Endures stop s path bytes seq)
    (o : EventObject) (ingestTsNs : UInt64) :
    let after := s.append os o ingestTsNs
    Endures stop after path (bytes ++ JournalEntry.bytes ⟨seq, ingestTsNs, o.image⟩) (seq + 1) ∧
      after.writer.bufferBytes = s.writer.bufferBytes ∧ s.disk.calls ≤ after.disk.calls ∧
      s.disk.content path <+: after.disk.content path := by
  obtain ⟨flushed, unused, size, later, grown⟩ := endures.flushed stops
  have opened : s.writer.fd ≠ none := by simp [endures.fd]
  have room := endures.sized.room
  simp only [JournalSession.append, if_neg opened]
  split
  · exact ⟨flushed.put (by omega) o.image ingestTsNs, size, later, grown⟩
  · exact ⟨endures.put (by omega) o.image ingestTsNs, rfl, Nat.le_refl _, List.prefix_refl _⟩

/-- Run lemma: the file only grows, and starts like the records that have been appended. -/
theorem Endures.run (stops : os.StopsAt stop) (calls : List JournalCall)
    (endures : Endures stop s path bytes seq) :
    let after := calls.foldl (call os) s
    (∃ last, Endures stop after path
        (bytes ++ entriesBytes (entriesFrom seq (appended calls))) last) ∧
      after.writer.bufferBytes = s.writer.bufferBytes ∧ s.disk.calls ≤ after.disk.calls ∧
      s.disk.content path <+: after.disk.content path := by
  induction calls generalizing s bytes seq with
  | nil =>
    refine ⟨⟨seq, ?_⟩, rfl, Nat.le_refl _, List.prefix_refl _⟩
    simpa [appended, entriesFrom, entriesBytes] using endures
  | cons first rest ih =>
    cases first with
    | append o ingestTsNs =>
      obtain ⟨next, size, later, grown⟩ := endures.append stops o ingestTsNs
      obtain ⟨⟨last, whole⟩, sizes, calls, grows⟩ := ih next
      refine ⟨⟨last, ?_⟩, sizes.trans size, later.trans calls, grown.trans grows⟩
      simpa [call, appended, JournalCall.item, entriesFrom, entriesBytes] using whole
    | flush =>
      obtain ⟨next, -, size, later, grown⟩ := endures.flushed stops
      obtain ⟨⟨last, whole⟩, sizes, calls, grows⟩ := ih next
      exact ⟨⟨last, whole⟩, sizes.trans size, later.trans calls, grown.trans grows⟩

/-- What has been flushed before the system stops stays at the front of the file. -/
theorem Endures.durable (stops : os.StopsAt stop) (endures : Endures stop s path bytes seq)
    (front back : List JournalCall)
    (takes : ((front ++ [JournalCall.flush]).foldl (call os) s).disk.calls ≤ stop) :
    bytes ++ entriesBytes (entriesFrom seq (appended front)) <+:
      ((front ++ .flush :: back).foldl (call os) s).disk.content path := by
  obtain ⟨⟨last, before⟩, -⟩ := endures.run stops front
  obtain ⟨flushed, unused, -⟩ := before.flushed stops
  obtain ⟨-, -, -, grows⟩ := flushed.run stops back
  rw [List.foldl_append] at takes
  have stored := flushed.running takes
  rw [JournalWriter.pending, unused, List.take_zero, List.append_nil] at stored
  rw [List.foldl_append, ← stored]
  exact grows

end JournalSession

/-- The first bytes of a run of records are whole records and a part of the next. -/
theorem prefix_entries {entries : List JournalEntry} {data : List UInt8}
    (front : data <+: entriesBytes entries) :
    ∃ torn, data = entriesBytes (entries.take (data.length / recordBytes)) ++ torn ∧
      torn.length = data.length % recordBytes := by
  have positive : 0 < recordBytes := by decide
  have cut : data.length / recordBytes ≤ entries.length := by
    have := front.length_le
    rw [length_entriesBytes] at this
    exact Nat.div_le_of_le_mul (by rwa [Nat.mul_comm])
  have size : (entriesBytes (entries.take (data.length / recordBytes))).length =
      data.length / recordBytes * recordBytes := by
    rw [length_entriesBytes, List.length_take_of_le cut]
  have start : entriesBytes (entries.take (data.length / recordBytes)) <+: entriesBytes entries := by
    refine ⟨entriesBytes (entries.drop (data.length / recordBytes)), ?_⟩
    rw [← entriesBytes_append, List.take_append_drop]
  obtain ⟨torn, whole⟩ := List.prefix_of_prefix_length_le start front
    (by rw [size]; exact Nat.div_mul_le_self _ _)
  refine ⟨torn, whole.symm, ?_⟩
  have total := congrArg List.length whole
  rw [List.length_append, size] at total
  have := Nat.div_add_mod' data.length recordBytes
  omega

namespace JournalReader

/-- Where less than a record is left, the reader has an error to tell exactly if something is. -/
theorem scan_torn {base : List UInt8} {r : JournalReader}
    (short : base.length < r.off + recordBytes) (clean : r.hadError = false) (fuel : Nat) :
    (scan base (fuel + 1) r).1 = none ∧
      ((scan base (fuel + 1) r).2.hadError = true ↔ r.off ≠ base.length) := by
  refine ⟨scan_short short _, ?_⟩
  simp only [scan]
  split
  · next header =>
    rw [dif_neg (fun whole => absurd whole.2 (by omega))]
    have more : r.off ≠ base.length := by
      rw [recordHeaderBytes] at header
      omega
    exact iff_of_true rfl more
  · split
    · next more => exact iff_of_true rfl more
    · next done => exact iff_of_false (by simp [clean]) (not_not.mpr (not_not.mp done))

theorem readFile_torn {entries : List JournalEntry} {data torn : List UInt8}
    (ahead : data = entriesBytes entries ++ torn) (short : torn.length < recordBytes) :
    let read := readFile (some (journalHeader ++ data))
    read.opened = true ∧ read.entries = entries ∧ (read.reader.hadError = true ↔ torn ≠ []) := by
  intro read
  obtain ⟨fuel, made⟩ := readFile_entries ahead
  have size := advanced_end ahead
  obtain ⟨more, long⟩ : ∃ more, (journalHeader ++ data).length = more + 1 :=
    Nat.exists_eq_add_one.mpr (by rw [List.length_append]; exact Nat.add_pos_left (by decide) _)
  obtain ⟨nothing, told⟩ := @scan_torn (journalHeader ++ data)
    ((atStart data).advanced entries.length) (by omega) rfl more
  have stopped : ((atStart data).advanced entries.length).next =
      scan (journalHeader ++ data) (more + 1) ((atStart data).advanced entries.length) := by
    rw [← long]
    rfl
  have some_left : ((atStart data).advanced entries.length).off ≠ (journalHeader ++ data).length ↔
      torn ≠ [] := by
    rw [ne_eq, ne_eq, ← List.length_eq_zero_iff]
    omega
  rw [← some_left, ← told]
  have drained : drain (fuel + 1) ((atStart data).advanced entries.length) =
      ([], (scan (journalHeader ++ data) (more + 1)
        ((atStart data).advanced entries.length)).2) := by
    rw [drain, stopped]
    cases step : scan (journalHeader ++ data) (more + 1)
        ((atStart data).advanced entries.length) with
    | mk result after =>
      rw [step] at nothing
      cases nothing
      rfl
  simp only [read, made, drained, List.append_nil]
  exact ⟨trivial, trivial, trivial⟩

end JournalReader

variable [DecidableEq Path]

/-- A journal endures a system that stops. Whatever parts of its bytes the system takes before,
and wherever it stops, the file is read back as the first of the appended events, with an error
exactly where a record is torn. Every event that was appended before a flush which returned in
time is there, and as long as the system has not stopped, what a dying process loses is no more
than a buffer holds. -/
theorem journal_endures_stop {os : Os Path} {disk : Disk Path} {path : Path} {stop bufferBytes : Nat}
    (stops : os.StopsAt stop) (granted : os.opens path = true) (fresh : disk.content path = [])
    (taken : os.writes disk.calls journalHeaderBytes = journalHeaderBytes)
    (room : recordBytes ≤ bufferBytes) (calls : List JournalCall) :
    let opened := JournalSession.openFile os { writer := { bufferBytes }, disk } path
    let left := fun calls : List JournalCall => (calls.foldl (JournalSession.call os) opened.1).disk
    let read := JournalReader.readFile ((left calls).files path)
    opened.2 = true ∧ read.opened = true ∧
      ∃ count, count ≤ (appended calls).length ∧
        read.entries = (entriesFrom 1 (appended calls)).take count ∧
        (read.reader.hadError = true ↔
          ((left calls).content path).length ≠ journalHeaderBytes + count * recordBytes) ∧
        (∀ front back, calls = front ++ .flush :: back → (left (front ++ [.flush])).calls ≤ stop →
          (appended front).length ≤ count) ∧
        ((left calls).calls ≤ stop →
          (appended calls).length ≤ count + bufferBytes / recordBytes) := by
  intro opened left read
  have begun : opened = (JournalSession.headed os bufferBytes disk path, true) :=
    JournalSession.openFile_begun granted fresh taken
  have started : JournalSession.Endures stop (JournalSession.headed os bufferBytes disk path) path
      journalHeader 1 := by
    have headed := JournalSession.headed_writes fresh room taken
    have content : (JournalSession.headed os bufferBytes disk path).disk.content path =
        journalHeader := (List.append_nil _).symm.trans headed.stored
    exact ⟨rfl, headed.sized, Nat.dvd_zero _, rfl, fun _ => headed.stored,
      content ▸ List.prefix_refl _⟩
  obtain ⟨⟨last, endures⟩, size, -, grown⟩ := started.run stops calls
  have disk_left : ∀ calls, left calls =
      (calls.foldl (JournalSession.call os) (JournalSession.headed os bufferBytes disk path)).disk := by
    intro calls
    simp only [left, begun]
  rw [← disk_left] at grown
  have front : (left calls).content path <+:
      journalHeader ++ entriesBytes (entriesFrom 1 (appended calls)) :=
    disk_left calls ▸ endures.front
  have header : (JournalSession.headed os bufferBytes disk path).disk.content path =
      journalHeader :=
    (List.append_nil _).symm.trans (JournalSession.headed_writes fresh room taken).stored
  obtain ⟨data, held⟩ := grown
  rw [header] at held
  rw [← held, List.prefix_append_right_inj] at front
  obtain ⟨torn, whole, rest⟩ := prefix_entries front
  have positive : 0 < recordBytes := by decide
  obtain ⟨readOpened, entries, error⟩ :=
    JournalReader.readFile_torn whole (rest ▸ Nat.mod_lt _ positive)
  have file : (left calls).files path = some (journalHeader ++ data) :=
    Disk.files_eq held.symm (List.append_ne_nil_of_left_ne_nil (by decide) _)
  have count : (entriesFrom 1 (appended calls)).length = (appended calls).length := by
    simp [entriesFrom_eq]
  have division := Nat.div_add_mod' data.length recordBytes
  have total : data.length ≤ (appended calls).length * recordBytes := by
    have := front.length_le
    rwa [length_entriesBytes, count] at this
  simp only [read, file]
  refine ⟨by rw [begun], readOpened, data.length / recordBytes, ?_, entries, ?_, ?_, ?_⟩
  · exact Nat.div_le_of_le_mul (by rwa [Nat.mul_comm])
  · rw [error, ← held, List.length_append, show journalHeader.length = journalHeaderBytes from rfl,
      ne_eq, ← List.length_eq_zero_iff, rest]
    omega
  · rintro before back split takes
    rw [disk_left] at takes
    have kept := (started.durable stops before back takes).length_le
    rw [← split, ← disk_left, ← held, List.length_append, List.length_append, length_entriesBytes,
      entriesFrom_eq, List.length_mapIdx] at kept
    exact (Nat.le_div_iff_mul_le positive).mpr (by omega)
  · intro takes
    have all := congrArg List.length (endures.running (disk_left calls ▸ takes))
    rw [← disk_left, ← held, List.length_append, List.length_append, List.length_append,
      endures.sized.length_pending, length_entriesBytes, count] at all
    have used := endures.sized.used
    rw [size] at used
    obtain ⟨records, whole⟩ := endures.whole
    rw [whole] at all used
    have buffered : records ≤ bufferBytes / recordBytes :=
      (Nat.le_div_iff_mul_le positive).mpr (by rwa [Nat.mul_comm])
    have every : (appended calls).length = data.length / recordBytes + records := by
      calc (appended calls).length
          = (appended calls).length * recordBytes / recordBytes :=
            (Nat.mul_div_cancel _ positive).symm
        _ = (data.length + records * recordBytes) / recordBytes := by
            rw [Nat.mul_comm records]
            congr 1
            omega
        _ = data.length / recordBytes + records := Nat.add_mul_div_right _ _ positive
    omega

/-- A system that takes the header, five bytes of a record and then nothing. -/
def tearingOs : Os Nat where
  opens := fun _ => true
  writes := fun call offered => if call = 0 then offered else if call = 1 then min offered 5 else 0

theorem tearingOs_stops : tearingOs.StopsAt 2 where
  some_taken := by
    intro call offered early proper
    simp only [tearingOs]
    split
    · omega
    · rw [if_pos (by omega)]
      omega
  nothing := by
    intro call offered late proper
    simp only [tearingOs]
    rw [if_neg (by omega), if_neg (by omega)]

theorem journal_endures_stop_torn :
    let calls := [.append { event := {} } 9, .flush, .append { event := {} } 10, JournalCall.flush]
    let opened := JournalSession.openFile tearingOs
      { writer := { bufferBytes := recordBytes }, disk := { files := fun _ => none } } 7
    let left := fun calls : List JournalCall =>
      (calls.foldl (JournalSession.call tearingOs) opened.1).disk
    let read := JournalReader.readFile ((left calls).files 7)
    opened.2 = true ∧ read.opened = true ∧
      ∃ count, count ≤ (appended calls).length ∧
        read.entries = (entriesFrom 1 (appended calls)).take count ∧
        (read.reader.hadError = true ↔
          ((left calls).content 7).length ≠ journalHeaderBytes + count * recordBytes) ∧
        (∀ front back, calls = front ++ .flush :: back → (left (front ++ [.flush])).calls ≤ 2 →
          (appended front).length ≤ count) ∧
        ((left calls).calls ≤ 2 →
          (appended calls).length ≤ count + recordBytes / recordBytes) :=
  @journal_endures_stop Nat _ tearingOs { files := fun _ => none } 7 2 recordBytes
    tearingOs_stops rfl rfl rfl le_rfl
    [.append { event := {} } 9, .flush, .append { event := {} } 10, .flush]

end FeedHandler
