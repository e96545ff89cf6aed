import FeedHandler.Journal.ItchToJournal
import FeedHandler.Phase2.PipelineInOrder
import FeedHandler.Phase3.NbboTape

/-! The replay of a journal through the pipeline, and the replay of a journal that the converter
has made: every message of the recorded file that parses is published, in the order of the file. -/
namespace FeedHandler

open AppendFile LengthPrefixed

inductive ReplayMode where
  | pipelineCrc
  | backtest
  | both
  deriving DecidableEq, Repr

/-- The locals of the loop in `journal_replay`. -/
structure ReplayLoop where
  reader : JournalReader
  pipeline : Pipeline
  sink : List BookEvent := []

namespace ReplayLoop

def drainIntervalRecords : Nat := 100000

/-- An event that has been read; the pipeline is drained now and then. -/
def event (collectMerged : Bool) (s : ReplayLoop) (ev : BookEvent) : ReplayLoop :=
  let pipeline := s.pipeline.onEvent ev
  if s.reader.stats.recordsRead % drainIntervalRecords = 0 then
    let drained := pipeline.finalize
    { s with
      pipeline := drained.1
      sink := if collectMerged then s.sink ++ drained.2 else s.sink }
  else { s with pipeline }

/-- There is no result where a record holds an enumeration value that the pipeline has no
meaning for. Every turn takes a record of the file, so its length is fuel enough. -/
def loop (collectMerged : Bool) (maxRecords : UInt64) : Nat → ReplayLoop → Option ReplayLoop
  | 0, s => some s
  | fuel + 1, s =>
    match s.reader.next with
    | (none, reader) => some { s with reader }
    | (some entry, reader) =>
      match entry.event? with
      | none => none
      | some ev =>
        let s := event collectMerged { s with reader } ev
        if 0 < maxRecords ∧ maxRecords.toNat ≤ s.reader.stats.recordsRead then some s
        else loop collectMerged maxRecords fuel s

end ReplayLoop

/-- What `journal_replay` exits with and prints, and the tape that its backtest is run on. -/
structure JournalReplay where
  exitCode : Nat
  reader : JournalReaderStats := {}
  pipeline : PipelineStats := {}
  tape : List BookEvent := []

/-- `journal_replay` on the file at its path. -/
def journalReplay (file : Option (List UInt8)) (mode : ReplayMode) (maxRecords : UInt64)
    (noFinalize : Bool) : Option JournalReplay :=
  let opened := JournalReader.openFile {} file
  if opened.2 then
    let start : ReplayLoop := { reader := opened.1, pipeline := .create 1024 (2 ^ 20) }
    (ReplayLoop.loop (mode ≠ .pipelineCrc) maxRecords ((file.getD []).length + 1) start).map fun s =>
      if s.reader.hadError then { exitCode := 1 }
      else if noFinalize then
        { exitCode := 0, reader := s.reader.stats, pipeline := s.pipeline.stats }
      else
        let drained := s.pipeline.finalize
        { exitCode := 0
          reader := s.reader.stats
          pipeline := drained.1.stats
          tape := if mode ≠ .pipelineCrc then s.sink ++ drained.2 else [] }
  else some { exitCode := 1 }

namespace Pipeline

variable {p : Pipeline} {ev : BookEvent} {past merged : List BookEvent} {v : Venue}

/-- The state after the events `past` of one venue, counted from 1, of which `merged` have been
drained: they are the front of `past`, and the queue of the venue is the rest. -/
structure Drained (v : Venue) (past merged : List BookEvent) (p : Pipeline) : Prop where
  next : past.length + 1 < wordSize → (p.tracker v).nextExpected = past.length + 1
  clear : (p.tracker v).bufferedTags.Clear
  pending : p.pendingByVenue v = .empty
  idle : p.recoverySim.pendingRecovered = []
  requests : p.recoverySim.requestsTotal = 0
  single : p.merger.Single v
  queue : merged ++ p.published v = past
  stats : AllAccepted p.stats past.length
  recovered : p.stats.recoveryReinjected = 0
  crc : p.stats.mergedCrc = merged.foldl updateCrcFromBookEvent 0

theorem create_drained (gapWindow capacity : Nat) (v : Venue) :
    Drained v [] [] (create gapWindow capacity) where
  next _ := rfl
  clear _ := rfl
  pending := rfl
  idle := rfl
  requests := rfl
  single _ _ := rfl
  queue := rfl
  stats := ⟨rfl, rfl, rfl, rfl, rfl⟩
  recovered := rfl
  crc := rfl

/-- Step lemma: the next event of the venue. -/
theorem Drained.onEvent (drained : Drained v past merged p) (venue : ev.venue = v)
    (follows : ev.seq = past.length + 1) : Drained v (past ++ [ev]) merged (p.onEvent ev) := by
  subst venue
  have expected := drained.next (by rw [← follows]; exact ev.seq_lt)
  have fed : Fed p ev (p.onEvent ev) :=
    onEvent_fed (follows.trans expected.symm) (by omega) drained.pending drained.idle
  obtain ⟨missed, stats⟩ := fed.stats
  have absent : ¬ (p.tracker ev.venue).Buffered ((p.tracker ev.venue).nextExpected + 1) :=
    drained.clear.not_holds
  constructor
  · intro room
    rw [List.length_append, List.length_singleton] at room ⊢
    simp only [Pipeline.tracker, fed.trackers, Function.update_self, SequenceTracker.advanced]
    rw [SequenceTracker.released_quiet (by omega) absent, expected]
  · simp only [Pipeline.tracker, fed.trackers, Function.update_self]
    exact drained.clear.popRun _ _
  · rw [fed.pending]
    exact drained.pending
  · rw [fed.sim]
    exact drained.idle
  · rw [fed.sim]
    exact drained.requests
  · intro w other
    rw [fed.queues, Function.update_of_ne other]
    exact drained.single w other
  · simp only [Pipeline.published, fed.queues, Function.update_self]
    rw [← List.append_assoc]
    exact congrArg (· ++ [ev]) drained.queue
  · obtain ⟨accepted, duplicates, buffered, tooLarge, overflow⟩ := drained.stats
    rw [stats, List.length_append]
    exact ⟨congrArg (· + 1) accepted, duplicates, buffered, tooLarge, overflow⟩
  · rw [stats]
    exact drained.recovered
  · rw [stats]
    exact drained.crc

/-- Step lemma: what `finalize` drains is what has been published since. -/
theorem Drained.finalize (drained : Drained v past merged p) :
    merged ++ p.finalize.2 = past ∧ Drained v past past p.finalize.1 ∧
      p.finalize.1.stats.recoveryRequests = 0 := by
  obtain ⟨out, empty⟩ := drained.single.drainAll
  have all : merged ++ p.merger.drainAll.1 = past := by rw [out]; exact drained.queue
  refine ⟨all, ?_, drained.requests⟩
  constructor
  · exact drained.next
  · exact drained.clear
  · exact drained.pending
  · exact drained.idle
  · exact drained.requests
  · exact fun w _ => empty w
  · simp only [Pipeline.published, Pipeline.finalize, empty, List.append_nil]
  · obtain ⟨accepted, duplicates, buffered, tooLarge, overflow⟩ := drained.stats
    exact ⟨accepted, duplicates, buffered, tooLarge, overflow⟩
  · exact drained.recovered
  · simp only [Pipeline.finalize]
    rw [drained.crc, ← List.foldl_append, all]

end Pipeline

namespace JournalReader

variable (done : List JournalEntry)

theorem drop_advanced (rest : List UInt8) :
    (journalHeader ++ (entriesBytes done ++ rest)).drop
      ((atStart (entriesBytes done ++ rest)).advanced done.length).off = rest := by
  rw [← List.append_assoc]
  apply List.drop_left'
  rw [List.length_append, length_entriesBytes]
  rfl

/-- Behind some records of a journal, at another one. -/
theorem next_between (entry : JournalEntry) (rest : List JournalEntry) :
    let r := (atStart (entriesBytes (done ++ entry :: rest))).advanced done.length
    r.next = (some entry, r.advanced 1) := by
  intro r
  have ahead := drop_advanced done (entriesBytes (entry :: rest))
  rw [← entriesBytes_append] at ahead
  exact next_entry rfl ahead

/-- Behind all records of a journal. -/
theorem next_behind :
    let r := (atStart (entriesBytes done)).advanced done.length
    r.next = (none, r) := by
  intro r
  refine scan_end ?_ _
  rw [List.length_append, length_entriesBytes]
  rfl

end JournalReader

namespace ReplayLoop

variable {s : ReplayLoop} {collectMerged : Bool} {v : Venue} {data : List UInt8}
  {past merged events : List BookEvent} {ev : BookEvent} {entry : JournalEntry}
  {entries : List JournalEntry}

/-- The loop after it has read and passed on `past`. -/
structure After (collectMerged : Bool) (v : Venue) (data : List UInt8)
    (past merged : List BookEvent) (s : ReplayLoop) : Prop where
  reader : s.reader = (JournalReader.atStart data).advanced past.length
  drained : s.pipeline.Drained v past merged
  sink : s.sink = if collectMerged then merged else []

theorem After.event (after : After collectMerged v data past merged s) (venue : ev.venue = v)
    (follows : ev.seq = past.length + 1) :
    ∃ merged', After collectMerged v data (past ++ [ev]) merged'
      (event collectMerged { s with reader := s.reader.advanced 1 } ev) := by
  have reader : s.reader.advanced 1 =
      (JournalReader.atStart data).advanced (past ++ [ev]).length := by
    rw [after.reader, List.length_append, List.length_singleton]
    simp [JournalReader.advanced, Nat.succ_mul, Nat.add_assoc]
  have passed := after.drained.onEvent venue follows
  obtain ⟨all, drained, _⟩ := passed.finalize
  unfold ReplayLoop.event
  simp only
  split
  · refine ⟨past ++ [ev], reader, drained, ?_⟩
    rw [after.sink]
    cases collectMerged with
    | false => rfl
    | true => exact all
  · exact ⟨merged, reader, passed, after.sink⟩

/-- Run lemma: the records ahead are read, and their events passed on, up to the limit. -/
theorem After.loop {done : List JournalEntry}
    (after : After collectMerged v (entriesBytes (done ++ entries)) past merged s)
    (count : done.length = past.length)
    (read : List.Forall₂ (fun entry ev => entry.event? = some ev) entries events)
    (venue : ∀ ev ∈ events, ev.venue = v)
    (follows : ∀ i ev, events[i]? = some ev → ev.seq = past.length + i + 1)
    (maxRecords : UInt64) (below : maxRecords = 0 ∨ past.length < maxRecords.toNat)
    {fuel : Nat} (enough : entries.length < fuel) :
    ∃ merged' s', loop collectMerged maxRecords fuel s = some s' ∧
      After collectMerged v (entriesBytes (done ++ entries))
        (past ++ ItchLoop.upTo maxRecords past.length events) merged' s' := by
  induction read generalizing s past merged fuel done with
  | nil =>
    obtain ⟨fuel, rfl⟩ := Nat.exists_eq_add_one.mpr (Nat.zero_lt_of_lt enough)
    have stopped : s.reader.next = (none, s.reader) := by
      rw [after.reader, ← count, List.append_nil]
      exact JournalReader.next_behind done
    refine ⟨merged, s, by simp only [ReplayLoop.loop, stopped], ?_⟩
    rw [List.prefix_nil.mp ItchLoop.upTo_initial, List.append_nil past]
    exact after
  | @cons entry ev entries events first rest ih =>
    obtain ⟨fuel, rfl⟩ := Nat.exists_eq_add_one.mpr (Nat.zero_lt_of_lt enough)
    have next : s.reader.next = (some entry, s.reader.advanced 1) := by
      rw [after.reader, ← count]
      exact JournalReader.next_between done entry entries
    have here := follows 0 ev rfl
    obtain ⟨merged', later⟩ := after.event (venue ev List.mem_cons_self) here
    have recordsRead : (s.reader.advanced 1).stats.recordsRead = past.length + 1 := by
      rw [after.reader]
      simp [JournalReader.advanced, JournalReader.atStart]
    have kept : (ReplayLoop.event collectMerged { s with reader := s.reader.advanced 1 } ev).reader =
        s.reader.advanced 1 := by
      unfold ReplayLoop.event
      simp only
      split <;> rfl
    rw [ItchLoop.upTo_cons below]
    simp only [ReplayLoop.loop, next, first, kept, recordsRead, ItchLoop.limit_iff]
    split
    · next reached =>
      exact ⟨merged', _, rfl, by rwa [ItchLoop.upTo_reached reached]⟩
    · next more =>
      have room : maxRecords = 0 ∨ past.length + 1 < maxRecords.toNat := by
        by_cases none : maxRecords = 0
        · exact .inl none
        · exact .inr (not_le.mp fun reached => more ⟨none, reached⟩)
      rw [List.length_cons] at enough
      have size : (past ++ [ev]).length = past.length + 1 := by
        rw [List.length_append, List.length_singleton]
      rw [List.append_cons] at later ⊢
      rw [List.append_cons past, ← size]
      refine ih later ?_ (fun other listed => venue other (List.mem_cons_of_mem _ listed)) ?_
        (size ▸ room) (by omega)
      · rw [List.length_append, List.length_singleton, count, size]
      · intro i other found
        rw [size, follows (i + 1) other found]
        omega

end ReplayLoop

theorem event?_entriesFrom (seq : UInt64) (items : List (EventObject × UInt64)) :
    List.Forall₂ (fun entry ev => entry.event? = some ev) (entriesFrom seq items)
      (items.map stampedEvent) := by
  induction items generalizing seq with
  | nil => exact .nil
  | cons item rest ih =>
    refine .cons ?_ (ih (seq + 1))
    simp only [JournalEntry.event?, EventObject.event?_image, Option.map_some]
    rfl

/-- The events of one venue, numbered from 1, are replayed as they are. -/
structure ReplayedInOrder (events : List BookEvent) (mode : ReplayMode) (noFinalize : Bool)
    (replayed : JournalReplay) : Prop where
  exitCode : replayed.exitCode = 0
  recordsRead : replayed.reader.recordsRead = events.length
  crcFailures : replayed.reader.crcFailures = 0
  accepted : Pipeline.AllAccepted replayed.pipeline events.length
  recovered : replayed.pipeline.recoveryReinjected = 0
  mergedCrc : noFinalize = false →
    replayed.pipeline.mergedCrc = events.foldl updateCrcFromBookEvent 0
  recoveryRequests : noFinalize = false → replayed.pipeline.recoveryRequests = 0
  tape : noFinalize = false → mode ≠ .pipelineCrc → replayed.tape = events

theorem journalReplay_in_order {items : List (EventObject × UInt64)} {v : Venue}
    (counted : ∀ i ev, (items.map stampedEvent)[i]? = some ev → ev.venue = v ∧ ev.seq = i + 1)
    (mode : ReplayMode) (maxRecords : UInt64) (noFinalize : Bool) :
    ∃ replayed, journalReplay (some (journalHeader ++ entriesBytes (entriesFrom 1 items))) mode
        maxRecords noFinalize = some replayed ∧
      ReplayedInOrder (ItchLoop.upTo maxRecords 0 (items.map stampedEvent)) mode noFinalize
        replayed := by
  obtain ⟨answer, reader⟩ := JournalReader.openFile_header {} (entriesBytes (entriesFrom 1 items))
  have start : ReplayLoop.After (decide (mode ≠ .pipelineCrc)) v
      (entriesBytes (entriesFrom 1 items)) [] []
      { reader := (JournalReader.openFile {}
          (some (journalHeader ++ entriesBytes (entriesFrom 1 items)))).1
        pipeline := .create 1024 (2 ^ 20) } := by
    refine ⟨?_, Pipeline.create_drained _ _ v, by simp⟩
    rw [reader, List.length_nil, JournalReader.advanced_zero]
    rfl
  have below : maxRecords = 0 ∨ ([] : List BookEvent).length < maxRecords.toNat := by
    by_cases none : maxRecords = 0
    · exact .inl none
    · exact .inr (Nat.pos_of_ne_zero fun zero => none (UInt64.toNat_inj.mp zero))
  have enough : (entriesFrom 1 items).length <
      ((some (journalHeader ++ entriesBytes (entriesFrom 1 items))).getD []).length + 1 := by
    have long : (entriesFrom 1 items).length ≤ (entriesFrom 1 items).length * recordBytes :=
      Nat.le_mul_of_pos_right _ (by decide)
    rw [Option.getD_some, List.length_append, length_entriesBytes]
    omega
  obtain ⟨merged, s, looped, after⟩ := @ReplayLoop.After.loop _ _ _ _ _ _ _ [] start rfl
    (event?_entriesFrom 1 items)
    (fun ev listed => by
      obtain ⟨i, found⟩ := List.getElem?_of_mem listed
      exact (counted i ev found).1)
    (fun i ev found => by
      rw [(counted i ev found).2]
      simp)
    maxRecords below _ enough
  simp only [List.nil_append, List.length_nil] at after
  have clean : s.reader.hadError = false := by
    rw [after.reader]
    rfl
  obtain ⟨all, drained, requests⟩ := after.drained.finalize
  have recordsRead : s.reader.stats.recordsRead =
      (ItchLoop.upTo maxRecords 0 (items.map stampedEvent)).length := by
    rw [after.reader]
    simp [JournalReader.advanced, JournalReader.atStart]
  have crcFailures : s.reader.stats.crcFailures = 0 := by
    rw [after.reader]
    rfl
  rw [journalReplay]
  simp only [answer, if_true, looped, Option.map_some, clean, Bool.false_eq_true, if_false]
  cases noFinalize with
  | true =>
    exact ⟨_, rfl, rfl, recordsRead, crcFailures, after.drained.stats, after.drained.recovered,
      fun never => absurd never (by decide), fun never => absurd never (by decide),
      fun never => absurd never (by decide)⟩
  | false =>
    refine ⟨_, rfl, rfl, recordsRead, crcFailures, drained.stats, drained.recovered,
      fun _ => drained.crc, fun _ => requests, fun _ collects => ?_⟩
    simp only [Bool.false_eq_true, if_false, if_pos collects, after.sink, decide_eq_true collects,
      if_true]
    exact all

variable {Path : Type*} [DecidableEq Path] {os : Os Path} {disk : Disk Path} {outPath : Path}
  {file rest : List UInt8} {messages : List (List UInt8)}

theorem EventMemory.stampedEvent_items (memory : EventMemory) (events : List BookEvent) :
    (memory.items events).map stampedEvent = events := by
  have each : stampedEvent ∘ (fun ev => (memory.object ev, ev.ingestTsNs)) = id := by
    funext ev
    simp only [Function.comp_apply, stampedEvent, memory.event_object, id_eq]
  rw [EventMemory.items, List.map_map, each, List.map_id]

/-- From a recorded file to the backtest. Where every message of the file that is not empty is as
long as its type asks for, the journal that the converter makes is replayed without a loss: the
pipeline accepts every event, recovers and drops none, and publishes them in the order of the
messages in the file, whatever their times are. -/
theorem itch_tape_replayed (memory : EventMemory) (accepting : os.Accepting) (removes append : Bool)
    (fresh : append = true → disk.content outPath = []) (maxEvents maxBytes maxRecords : UInt64)
    (small : file.length + 1 < 2 ^ 64)
    (split : Splits 2 (ItchLoop.upTo maxBytes 0 file) messages rest)
    (whole : ∀ message ∈ messages, message ≠ [] → ItchLoop.Whole message) (clock : Nat → UInt64)
    (mode : ReplayMode) (noFinalize : Bool) :
    let made := itchToJournal memory os removes disk (some file) outPath maxEvents maxBytes append
      clock
    let events := ItchLoop.journaled maxEvents clock messages
    made.exitCode = 0 →
      events.length =
        (ItchLoop.upTo maxEvents 0 (messages.filter fun message => message ≠ [])).length ∧
      ∃ replayed, journalReplay (made.disk.files outPath) mode maxRecords noFinalize =
          some replayed ∧
        ReplayedInOrder (ItchLoop.upTo maxRecords 0 events) mode noFinalize replayed := by
  intro made events exited
  obtain ⟨-, stored, -⟩ := itchToJournal_made memory accepting removes append fresh maxEvents
    maxBytes split clock exited
  have each : ∀ message ∈ messages.filter fun message => message ≠ [],
      ItchLoop.Whole message := by
    intro message listed
    obtain ⟨member, nonempty⟩ := List.mem_filter.mp listed
    exact whole message member (by simpa using nonempty)
  obtain ⟨length, numbered⟩ := ItchLoop.converted_whole clock 0 0 each
  have few : (ItchLoop.converted clock 0 0
      (messages.filter fun message => message ≠ [])).length ≤ file.length := by
    rw [length]
    exact (List.length_filter_le _ _).trans
      ((split.length_le (by decide)).trans ItchLoop.upTo_initial.length_le)
  refine ⟨?_, ?_⟩
  · simp only [events, ItchLoop.journaled, ItchLoop.length_upTo, length]
  · have counted : ∀ i ev, ((memory.items events).map stampedEvent)[i]? = some ev →
        ev.venue = .nasdaq ∧ ev.seq = i + 1 := by
      intro i ev found
      rw [memory.stampedEvent_items] at found
      have listed : (ItchLoop.converted clock 0 0
          (messages.filter fun message => message ≠ []))[i]? = some ev := by
        obtain ⟨tail, all⟩ := (ItchLoop.upTo_initial : events <+: _)
        rw [← all]
        exact (List.getElem?_append_left (List.getElem?_eq_some_iff.mp found).1).trans found
      obtain ⟨venue, sequence⟩ := numbered i ev listed
      have inside : i < file.length :=
        (List.getElem?_eq_some_iff.mp listed).1.trans_le few
      refine ⟨venue, ?_⟩
      rw [BookEvent.seq, sequence, Nat.zero_add, UInt64.toNat_ofNat']
      exact Nat.mod_eq_of_lt (by omega)
    have replayed := journalReplay_in_order counted mode maxRecords noFinalize
    rwa [memory.stampedEvent_items, ← stored] at replayed

/-- A system event, a message without bytes and two stray ones. -/
theorem itch_tape_replayed_system_event :
    let os : Os Nat := .partialWrites false 1000 1000
    let file := encode 2 ('S'.toUInt8 :: List.replicate 11 0) ++ encode 2 [] ++ [0, 9]
    let made := itchToJournal ⟨fun ev => { event := ev }, fun _ => rfl⟩ os true
      { files := fun _ => none } (some file) 0 0 0 false fun _ => 7
    ∃ replayed, journalReplay (made.disk.files 0) .both 0 false = some replayed ∧
      ReplayedInOrder (ItchLoop.upTo 0 0 (ItchLoop.journaled 0 (fun _ => 7)
        ['S'.toUInt8 :: List.replicate 11 0, []])) .both false replayed :=
  (itch_tape_replayed ⟨fun ev => { event := ev }, fun _ => rfl⟩
    (Os.partialWrites_accepting (by decide) (by decide)) true false (fun never => by cases never)
    0 0 0 (by decide)
    (show Splits 2 _ ['S'.toUInt8 :: List.replicate 11 0, []] [0, 9] from
      ⟨by decide, by decide, .inr (by decide)⟩)
    (fun message listed some_bytes => by
      obtain rfl | rfl := List.mem_pair.mp listed
      · exact ⟨_, _, rfl, by decide⟩
      · exact absurd rfl some_bytes)
    (fun _ => 7) .both false rfl).2

end FeedHandler
