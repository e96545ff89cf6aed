import FeedHandler.Service.ReplayCatalog

/-! Streaming ticks from a journal file. The service reads while it writes to the client, so
what the client gets and the status at the end depend on where the stream has ended. -/
namespace FeedHandler

open LimitedStream

namespace StreamTicksRequest

/-- The event that an image holds passes the filters of the request. -/
def admitsImage (request : StreamTicksRequest) (image : EventImage) : Bool :=
  if request.filterSymbol && image.symbolU64 != request.wantU64 then false
  else inTsWindow image.exchangeTsNs request.startTsNs request.endTsNs

/-- The loop of `StreamTicks` behind `sent` writes: what has been written, why the loop has ended
and the reader then. -/
def ticks (request : StreamTicksRequest) (client : Client) :
    Nat → Nat → JournalReader → List EventImage × Ending × JournalReader
  | 0, _, r => ([], .exhausted, r)
  | fuel + 1, sent, r =>
    match r.next with
    | (none, r) => ([], .exhausted, r)
    | (some entry, r) =>
      if request.admitsImage entry.image then
        if client sent then
          if 0 < request.limit ∧ request.limit ≤ UInt32.ofNat (sent + 1) then
            ([entry.image], .limited, r)
          else
            let later := request.ticks client fuel (sent + 1) r
            (entry.image :: later.1, later.2)
        else ([], .refused, r)
      else request.ticks client fuel sent r

/-- `StreamTicks` on a book journal with this content: the status and the messages written. Every
record takes bytes of the file, so its length is fuel enough. -/
def streamTicks (request : StreamTicksRequest) (client : Client) (file : Option (List UInt8)) :
    StreamStatus × List BookEventMsg :=
  let opened := JournalReader.openFile {} file
  if opened.2 then
    let run := request.ticks client ((file.getD []).length + 1) 0 opened.1
    let status :=
      if run.2.1 = .refused then .ok
      else if run.2.2.hadError then .dataLoss run.2.2.errorReason
      else .ok
    (status, run.1.map EventImage.toProto)
  else (.failedPrecondition "book journal not open", [])

end StreamTicksRequest

namespace JournalReader

variable {base rest : List UInt8} {r : JournalReader}

theorem scan_hadError (raised : r.hadError = true) (fuel : Nat) :
    (scan base fuel r).2.hadError = true := by
  induction fuel generalizing r with
  | zero => exact raised
  | succ fuel ih =>
    rw [scan]
    split
    · simp only
      split
      · split
        · exact ih rfl
        · exact raised
      · rfl
    · split
      · rfl
      · exact raised

theorem next_hadError (raised : r.hadError = true) : r.next.2.hadError = true := by
  rw [next]
  split
  · exact raised
  · exact scan_hadError raised _

/-- An error that a reader has met stays with it. -/
theorem drain_hadError (raised : r.hadError = true) (fuel : Nat) :
    (drain fuel r).2.hadError = true := by
  induction fuel generalizing r with
  | zero => exact raised
  | succ fuel ih =>
    have after := next_hadError raised
    rw [drain]
    split
    · next ends =>
      rw [ends] at after
      exact after
    · next found =>
      rw [found] at after
      exact ih after

theorem drain_hadError_mono {some_fuel fuel : Nat} (more : some_fuel ≤ fuel)
    (raised : (drain some_fuel r).2.hadError = true) : (drain fuel r).2.hadError = true := by
  induction some_fuel generalizing r fuel with
  | zero => exact drain_hadError raised fuel
  | succ some_fuel ih =>
    obtain ⟨fuel, rfl⟩ : ∃ n, fuel = n + 1 := ⟨fuel - 1, by omega⟩
    rw [drain] at raised ⊢
    split
    · next ends =>
      rw [ends] at raised
      exact raised
    · next found =>
      rw [found] at raised
      exact ih (by omega) raised

theorem foldl_past_hadError (r : JournalReader) (records : List StoredRecord) :
    (records.foldl past r).hadError = (r.hadError || records.any (!·.intact)) := by
  induction records generalizing r with
  | nil => simp
  | cons record records ih =>
    rw [List.foldl_cons, ih, List.any_cons, past]
    cases record.intact <;> simp [setError]

theorem stopAt_hadError (r : JournalReader) (rest : List UInt8) :
    (r.stopAt rest).hadError = (r.hadError || !rest.isEmpty) := by
  rw [stopAt]
  split
  · split
    · next done => simp [done]
    · next more =>
      have some_bytes : rest.isEmpty = false := by simpa using more
      simp [setError, some_bytes]
  · next long =>
    have some_bytes : rest.isEmpty = false := by
      cases rest with
      | nil => exact absurd (by decide) long
      | cons => rfl
    simp [setError, some_bytes]

/-- A reading without an error has met a complete journal. -/
theorem read_without_error (file : List UInt8) :
    ((readFile (some file)).opened = true ∧ (readFile (some file)).reader.hadError = false) ↔
      CompleteJournal file := by
  constructor
  · rintro ⟨opened, clean⟩
    obtain ⟨data, rfl⟩ := readFile_opened opened
    obtain ⟨records, rest, rfl, framed, unframed⟩ := exists_records data
    rw [readFile_records framed unframed] at clean
    simp only [stopAt_hadError, foldl_past_hadError, Bool.or_eq_false_iff] at clean
    obtain ⟨⟨_, sound⟩, done⟩ := clean
    have intact : ∀ record ∈ records, record.intact = true := by simpa using sound
    have nothing : rest = [] := by simpa using done
    refine ⟨records.map StoredRecord.entry, ?_⟩
    rw [nothing, List.append_nil, ← recordsBytes_stored, List.map_map]
    congr 2
    refine (List.map_id records).symm.trans (List.map_congr_left fun record held => ?_)
    exact (StoredRecord.stored_entry (framed record held) (intact record held)).symm
  · rintro ⟨entries, rfl⟩
    rw [readFile_whole]
    exact ⟨rfl, rfl⟩

end JournalReader

namespace StreamTicksRequest

variable {request : StreamTicksRequest} {client : Client} {r : JournalReader}

/-- What the loop writes is what is served of the records that the reader hands out. Where it
has run to the end, the reader has as well; where the limit was reached, what has been written
is all that passes the filters of the records handed out so far. -/
theorem ticks_serve (request : StreamTicksRequest) (client : Client) (fuel sent : Nat)
    (r : JournalReader) :
    let run := request.ticks client fuel sent r
    (run.1, run.2.1) = serve request.admitsImage request.limit client sent
        ((r.drain fuel).1.map JournalEntry.image) ∧
      (run.2.1 = .exhausted → run.2.2 = (r.drain fuel).2) ∧
      ∃ handed ≤ fuel, run.2.2.hadError = (r.drain handed).2.hadError := by
  induction fuel generalizing sent r with
  | zero => exact ⟨rfl, fun _ => rfl, 0, le_rfl, rfl⟩
  | succ fuel ih =>
    intro run
    cases found : r.next with
    | mk result after =>
      cases result with
      | none =>
        simp only [run, ticks, JournalReader.drain, found]
        exact ⟨rfl, fun _ => trivial, fuel + 1, le_rfl, by simp [JournalReader.drain, found]⟩
      | some entry =>
        have one : (r.drain 1).2.hadError = after.hadError := by
          simp [JournalReader.drain, found]
        by_cases admitted : request.admitsImage entry.image = true
        · by_cases accepts : client sent = true
          · by_cases full : 0 < request.limit ∧ request.limit ≤ UInt32.ofNat (sent + 1)
            · simp only [run, ticks, JournalReader.drain, found, admitted, accepts, full,
                and_self, if_true, List.map_cons, serve]
              exact ⟨trivial, fun ending => absurd ending (by decide), 1, by omega, one.symm⟩
            · obtain ⟨served, ending, handed, inside, error⟩ := ih (sent + 1) after
              simp only [run, ticks, JournalReader.drain, found, admitted, accepts, full, if_true,
                if_false, List.map_cons, serve, ← served]
              exact ⟨trivial, ending, handed + 1, by omega, by
                simp [JournalReader.drain, found, error]⟩
          · simp only [run, ticks, JournalReader.drain, found, admitted, accepts, if_true,
              Bool.false_eq_true, if_false, List.map_cons, serve]
            exact ⟨trivial, fun ending => absurd ending (by decide), 1, by omega, one.symm⟩
        · obtain ⟨served, ending, handed, inside, error⟩ := ih sent after
          simp only [run, ticks, JournalReader.drain, found, admitted, Bool.false_eq_true, if_false,
            List.map_cons, serve, ← served]
          exact ⟨trivial, ending, handed + 1, by omega, by
            simp [JournalReader.drain, found, error]⟩

/-- The service writes the messages of the first recorded events that pass the filters, up to
the limit or to the first write that the client refuses. A stream that has run to the end
answers OK exactly if the file is a complete journal; one that ends before answers OK unless
the reader has met something damaged on the way. -/
theorem ticks_streamed (request : StreamTicksRequest) (client : Client) (file : List UInt8) :
    let read := JournalReader.readFile (some file)
    let reply := request.streamTicks client (some file)
    (read.opened = false → reply = (.failedPrecondition "book journal not open", [])) ∧
    (read.opened = true → ∃ served : List EventImage × Ending,
      reply.2 = served.1.map EventImage.toProto ∧
      Serves request.limit client 0
        ((read.entries.map JournalEntry.image).filter request.admitsImage) served ∧
      (served.2 = .refused → reply.1 = .ok) ∧
      (served.2 = .exhausted → (reply.1 = .ok ↔ CompleteJournal file) ∧
        (¬ CompleteJournal file → reply.1 = .dataLoss read.reader.errorReason)) ∧
      (served.2 = .limited → CompleteJournal file → reply.1 = .ok)) := by
  intro read reply
  have shape : read.opened = (JournalReader.openFile {} (some file)).2 := rfl
  refine ⟨fun refused => ?_, fun opened => ?_⟩
  · simp only [reply, streamTicks, ← shape, refused, Bool.false_eq_true, if_false]
  · obtain ⟨served, ending, handed, inside, error⟩ := request.ticks_serve client
      (file.length + 1) 0 (JournalReader.openFile {} (some file)).1
    have complete := JournalReader.read_without_error file
    have final : (JournalReader.openFile {} (some file)).1.drain (file.length + 1) =
        (read.entries, read.reader) := rfl
    rw [final] at served ending
    have still : ∀ some_fuel ≤ file.length + 1,
        ((JournalReader.openFile {} (some file)).1.drain some_fuel).2.hadError = true →
          read.reader.hadError = true := by
      intro some_fuel few raised
      have later := JournalReader.drain_hadError_mono few raised
      rwa [final] at later
    refine ⟨_, ?_, served ▸ serve_serves request.admitsImage request.limit client
      (UInt32.lt_iff_toNat_lt.mp) (read.entries.map JournalEntry.image), ?_, ?_, ?_⟩
    · simp only [reply, streamTicks, ← shape, opened, if_true, Option.getD_some]
    · intro refused
      simp only at refused
      simp only [reply, streamTicks, ← shape, opened, if_true, Option.getD_some, refused]
    · intro exhausted
      simp only at exhausted
      have apart : ¬ Ending.exhausted = .refused := by decide
      simp only [reply, streamTicks, ← shape, opened, if_true, Option.getD_some, exhausted,
        apart, if_false, ending exhausted]
      cases raised : read.reader.hadError with
      | true =>
        have damaged : ¬ CompleteJournal file := by
          intro whole
          have clean := (complete.mpr whole).2
          rw [show (JournalReader.readFile (some file)).reader.hadError = true from raised] at clean
          exact absurd clean (by decide)
        simp [damaged]
      | false =>
        have whole : CompleteJournal file := complete.mp ⟨opened, raised⟩
        simp [whole]
    · intro limited whole
      simp only at limited
      have apart : ¬ Ending.limited = .refused := by decide
      have clean := (complete.mpr whole).2
      have early : (request.ticks client (file.length + 1) 0
          (JournalReader.openFile {} (some file)).1).2.2.hadError = false := by
        rw [error]
        by_contra raised
        have later := still handed inside (by simpa using raised)
        exact absurd (clean.symm.trans later) (by decide)
      simp only [reply, streamTicks, ← shape, opened, if_true, Option.getD_some, limited, apart,
        if_false, early, Bool.false_eq_true]

end StreamTicksRequest

end FeedHandler
