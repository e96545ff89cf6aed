import FeedHandler.Journal.AcceptedJournals
import FeedHandler.Journal.JournalRoundTrip
import FeedHandler.Journal.NbboRoundTrip
import FeedHandler.Proto.CertBin
import FeedHandler.Proto.Mdp3Composition
import FeedHandler.Runtime.ShardedReaggregation

/-! The replay of a certification dump: it is parsed into a journal twice, each time with the
times the clock shows then, and the journals are compared by their checksums over the events. -/
namespace FeedHandler

open AppendFile

/-- The bytes of an event in memory: what an event fixes of them, and something at the others. -/
structure EventMemory where
  object : BookEvent → EventObject
  event_object : ∀ ev, (object ev).event = ev

/-- The events as they are given to a writer, each with its time of arrival. -/
def EventMemory.items (memory : EventMemory) (events : List BookEvent) :
    List (EventObject × UInt64) :=
  events.map fun ev => (memory.object ev, ev.ingestTsNs)

theorem EventMemory.events_items (memory : EventMemory) (events : List BookEvent) :
    ((memory.items events).map fun item => item.1.event) = events := by
  have each : (fun item : EventObject × UInt64 => item.1.event) ∘
      (fun ev => (memory.object ev, ev.ingestTsNs)) = id := by
    funext ev
    exact memory.event_object ev
  rw [EventMemory.items, List.map_map, each, List.map_id]

theorem EventMemory.length_items (memory : EventMemory) (events : List BookEvent) :
    (memory.items events).length = events.length :=
  List.length_map _

/-- What the loop over the packets leaves. -/
structure Mdp3Loop where
  events : List BookEvent
  packets : UInt64
  stats : Mdp3.ParseStats

/-- The loop over the packets, each with its arrival time. The packet beyond the limit is
counted and not parsed. -/
def Mdp3Loop.run (maxPackets : UInt64) :
    List (List UInt8 × UInt64) → UInt64 → Mdp3.ParseStats → Mdp3Loop
  | [], packets, stats => ⟨[], packets, stats⟩
  | (udp, now) :: rest, packets, stats =>
    let packets := packets + 1
    if 0 < maxPackets ∧ maxPackets < packets then ⟨[], packets, stats⟩
    else
      let parsed := Mdp3.parsePacket udp now stats
      let later := run maxPackets rest packets parsed.2
      { later with events := parsed.1 ++ later.events }

/-- What a run of the tool answers and stores through its references. -/
structure Mdp3RunOnce (Path : Type*) where
  answer : Bool
  semanticCrc : UInt32 := 0
  events : Nat := 0
  packets : UInt64 := 0
  stats : Mdp3.ParseStats := {}
  disk : Disk Path

/-- The packets of a dump with what the clock shows when each is parsed. -/
def arrivals (file : List UInt8) (clock : Nat → UInt64) : List (List UInt8 × UInt64) :=
  (certBinPayloads file).mapIdx fun i udp => (udp, clock i)

variable {Path : Type*} [DecidableEq Path]

def Mdp3RunOnce.writerBufferBytes : Nat := 2 ^ 20

/-- `run_once`. -/
def mdp3RunOnce (memory : EventMemory) (os : Os Path) (file : List UInt8) (maxPackets : UInt64)
    (clock : Nat → UInt64) (disk : Disk Path) (journalOut : Path) : Mdp3RunOnce Path :=
  let opened := JournalSession.openFile os
    { writer := { bufferBytes := Mdp3RunOnce.writerBufferBytes }, disk } journalOut
  if opened.2 then
    let looped := Mdp3Loop.run maxPackets (arrivals file clock) 0 {}
    let written := (memory.items looped.events).foldl
      (fun s item => s.append os item.1 item.2) opened.1
    let disk := (written.close os).disk
    let checked := computeSemanticCrc (disk.files journalOut) {}
    if checked.1 then
      { answer := true, semanticCrc := checked.2.crc, events := checked.2.records
        packets := looped.packets, stats := looped.stats, disk }
    else { answer := false, packets := looped.packets, stats := looped.stats, disk }
  else { answer := false, disk := opened.1.disk }

/-- What `mdp3_replay_bench` exits with and prints. -/
structure Mdp3ReplayBench where
  exitCode : Nat
  packets : UInt64 := 0
  events : Nat := 0
  crc : UInt32 := 0

/-- `mdp3_replay_bench` on the file at its input path; `clocks` are what the clock shows in the
first run and in the second. -/
def mdp3ReplayBench (memory : EventMemory) (os : Os Path) (disk : Disk Path)
    (input : Option (List UInt8)) (maxPackets : UInt64) (journalPath rerunPath : Path)
    (clocks : (Nat → UInt64) × (Nat → UInt64)) : Mdp3ReplayBench :=
  match input with
  | none => { exitCode := 1 }
  | some file =>
    let first := mdp3RunOnce memory os file maxPackets clocks.1 disk journalPath
    if first.answer then
      let second := mdp3RunOnce memory os file maxPackets clocks.2 first.disk rerunPath
      if second.answer then
        let stable := first.semanticCrc = second.semanticCrc ∧ first.events = second.events
        { exitCode := if stable then 0 else 5
          packets := first.packets, events := first.events, crc := first.semanticCrc }
      else { exitCode := 1 }
    else { exitCode := 1 }

namespace Mdp3

/-- The same events but for the times of arrival, and the same counters. -/
def SameParse (a b : List BookEvent × ParseStats) : Prop :=
  a.1.map BookEvent.unstamped = b.1.map BookEvent.unstamped ∧ a.2 = b.2

theorem SameParse.append {a b c d : List BookEvent} {stats stats' : ParseStats}
    (first : a.map BookEvent.unstamped = b.map BookEvent.unstamped)
    (second : SameParse (c, stats) (d, stats')) :
    SameParse (a ++ c, stats) (b ++ d, stats') :=
  ⟨by rw [List.map_append, List.map_append, first, second.1], second.2⟩

/-- The times of arrival are only passed on. -/
theorem parseEntries_restamped (body : List UInt8) (pos blockLen : Nat)
    {event event' : Nat → MdEntry → BookEvent}
    (alike : ∀ i entry, (event i entry).unstamped = (event' i entry).unstamped)
    (remaining i : Nat) {out out' : List BookEvent} (stats : ParseStats)
    (same : out.map BookEvent.unstamped = out'.map BookEvent.unstamped) :
    SameParse (parseEntries body pos blockLen event remaining i out stats)
      (parseEntries body pos blockLen event' remaining i out' stats) := by
  induction remaining generalizing i out out' stats with
  | zero => exact ⟨same, rfl⟩
  | succ remaining ih =>
    simp only [parseEntries]
    split
    · exact ⟨same, rfl⟩
    · split
      · exact ih (i + 1) stats same
      · apply ih (i + 1) stats.emitted
        rw [List.map_append, List.map_append, same, List.map_singleton, List.map_singleton, alike]

theorem parseBook_restamped (body : List UInt8) (packetSeq transactTimeNs now later : UInt64)
    (stats : ParseStats) :
    SameParse (parseIncrementalRefreshBook32 body packetSeq transactTimeNs now stats)
      (parseIncrementalRefreshBook32 body packetSeq transactTimeNs later stats) := by
  simp only [parseIncrementalRefreshBook32]
  split
  · exact ⟨rfl, rfl⟩
  · split
    · exact ⟨rfl, rfl⟩
    · split
      · exact ⟨rfl, rfl⟩
      · refine parseEntries_restamped body 14 _ ?_ _ 0 stats rfl
        intro i entry
        rfl

theorem parseMessages_restamped (header : MdpPacketHeader) (now later : UInt64) (fuel : Nat)
    (rest : List UInt8) {out out' : List BookEvent} (stats : ParseStats)
    (same : out.map BookEvent.unstamped = out'.map BookEvent.unstamped) :
    SameParse (parseMessages header now fuel rest out stats)
      (parseMessages header later fuel rest out' stats) := by
  induction fuel generalizing rest out out' stats with
  | zero => exact ⟨same, rfl⟩
  | succ fuel ih =>
    simp only [parseMessages]
    split
    · exact ⟨same, rfl⟩
    · cases decodeSbeHeader rest with
      | none => exact ⟨same, rfl⟩
      | some hdr =>
        simp only
        split
        · have book := parseBook_restamped ((rest.drop 10).take (hdr.msgSize.toNat - 10))
            header.msgSeqNum.toUInt64 header.sendingTime now later (stats.parsed hdr.templateId)
          rw [book.2]
          exact ih _ _ (SameParse.append same book).1
        · exact ih _ _ same

theorem parsePacket_restamped (udpPayload : List UInt8) (now later : UInt64) (stats : ParseStats) :
    SameParse (parsePacket udpPayload now stats) (parsePacket udpPayload later stats) := by
  simp only [parsePacket]
  cases decodeMdpPacketHeader udpPayload with
  | none => exact ⟨rfl, rfl⟩
  | some header => exact parseMessages_restamped header now later _ _ stats rfl

end Mdp3

namespace Mdp3Loop

/-- What the limit leaves of the packets when some have been counted. -/
def taken (maxPackets counted : UInt64) (packets : List (List UInt8 × UInt64)) :
    List (List UInt8 × UInt64) :=
  if maxPackets = 0 then packets else packets.take (maxPackets.toNat - counted.toNat)

theorem counted_next {counted : UInt64} (few : counted.toNat + 1 < 2 ^ 64) :
    (counted + 1).toNat = counted.toNat + 1 := by
  rw [UInt64.toNat_add]
  exact Nat.mod_eq_of_lt few

/-- The loop ends at the packet behind the limit. -/
theorem beyond_iff (m : UInt64) {counted : UInt64} (few : counted.toNat + 1 < 2 ^ 64) :
    0 < m ∧ m < counted + 1 ↔
      m ≠ 0 ∧ m.toNat ≤ counted.toNat := by
  rw [UInt64.lt_iff_toNat_lt, UInt64.lt_iff_toNat_lt, counted_next few, ne_eq,
    ← UInt64.toNat_inj, Nat.lt_succ_iff]
  exact and_congr_left fun _ => Nat.pos_iff_ne_zero

theorem taken_cons {maxPackets counted : UInt64} (few : counted.toNat + 1 < 2 ^ 64)
    (within : ¬ (maxPackets ≠ 0 ∧ maxPackets.toNat ≤ counted.toNat))
    (packet : List UInt8 × UInt64) (rest : List (List UInt8 × UInt64)) :
    taken maxPackets counted (packet :: rest) =
      packet :: taken maxPackets (counted + 1) rest := by
  by_cases zero : maxPackets = 0
  · simp only [taken, if_pos zero]
  · have below : counted.toNat < maxPackets.toNat :=
      not_le.mp fun reached => within ⟨zero, reached⟩
    have more : maxPackets.toNat - counted.toNat =
        maxPackets.toNat - (counted + 1).toNat + 1 := by
      rw [counted_next few]
      omega
    simp only [taken, if_neg zero, more, List.take_succ_cons]

/-- The packets that are taken are parsed one after another; the one the loop ends at is
counted too. -/
theorem run_taken (maxPackets : UInt64) {packets : List (List UInt8 × UInt64)} {counted : UInt64}
    (few : counted.toNat + packets.length < 2 ^ 64) (stats : Mdp3.ParseStats) :
    let looped := run maxPackets packets counted stats
    (looped.events, looped.stats) =
        Mdp3.parsePackets (taken maxPackets counted packets) stats ∧
      looped.packets = counted + UInt64.ofNat (if maxPackets = 0 then packets.length
        else min packets.length (maxPackets.toNat - counted.toNat + 1)) := by
  induction packets generalizing counted stats with
  | nil => simp [run, taken, Mdp3.parsePackets]
  | cons packet rest ih =>
    rw [List.length_cons] at few
    have one : counted.toNat + 1 < 2 ^ 64 := by omega
    have beyond := beyond_iff maxPackets one
    intro looped
    by_cases stop : maxPackets ≠ 0 ∧ maxPackets.toNat ≤ counted.toNat
    · have none_left : maxPackets.toNat - counted.toNat = 0 := Nat.sub_eq_zero_of_le stop.2
      have counts : min (packet :: rest).length 1 = 1 := by simp
      simp only [looped, run, if_pos (beyond.mpr stop), taken, if_neg stop.1, none_left,
        List.take_zero, Mdp3.parsePackets, Nat.zero_add, counts]
      exact ⟨trivial, rfl⟩
    · obtain ⟨parsed, count⟩ := @ih (counted + 1) (by rw [counted_next one]; omega)
        (Mdp3.parsePacket packet.1 packet.2 stats).2
      have here := taken_cons one stop packet rest
      refine ⟨?_, ?_⟩
      · simp only [looped, run, if_neg (fun ends => stop (beyond.mp ends)), here,
          Mdp3.parsePackets, ← parsed]
      · have total : (if maxPackets = 0 then (packet :: rest).length
            else min (packet :: rest).length (maxPackets.toNat - counted.toNat + 1)) =
            1 + (if maxPackets = 0 then rest.length
              else min rest.length (maxPackets.toNat - (counted + 1).toNat + 1)) := by
          rw [counted_next one, List.length_cons]
          split
          · omega
          · next limited =>
            have below : counted.toNat < maxPackets.toNat :=
              not_le.mp fun reached => stop ⟨limited, reached⟩
            omega
        have step : looped.packets = (run maxPackets rest (counted + 1)
            (Mdp3.parsePacket packet.1 packet.2 stats).2).packets := by
          simp only [looped, run, if_neg (fun ends => stop (beyond.mp ends))]
        rw [step, count, total, UInt64.ofNat_add, ← UInt64.add_assoc]
        rfl

/-- Two runs over the same packets with other times differ in the times of the events only. -/
theorem run_restamped (maxPackets : UInt64) {packets others : List (List UInt8 × UInt64)}
    (same : packets.map Prod.fst = others.map Prod.fst) (counted : UInt64)
    (stats : Mdp3.ParseStats) :
    let first := run maxPackets packets counted stats
    let second := run maxPackets others counted stats
    first.events.map BookEvent.unstamped = second.events.map BookEvent.unstamped ∧
      first.packets = second.packets ∧ first.stats = second.stats := by
  induction packets generalizing others counted stats with
  | nil =>
    obtain rfl := List.map_eq_nil_iff.mp same.symm
    exact ⟨rfl, rfl, rfl⟩
  | cons packet rest ih =>
    cases others with
    | nil => cases same
    | cons other others =>
      obtain ⟨udp, now⟩ := packet
      obtain ⟨udp', later⟩ := other
      obtain ⟨rfl, behind⟩ := List.cons.inj same
      simp only [run]
      split
      · exact ⟨rfl, rfl, rfl⟩
      · have parsed := Mdp3.parsePacket_restamped udp now later stats
        rw [parsed.2]
        obtain ⟨events, packets, stats⟩ := ih behind (counted + 1)
          (Mdp3.parsePacket udp later stats).2
        refine ⟨?_, packets, stats⟩
        rw [List.map_append, List.map_append, parsed.1, events]

end Mdp3Loop

namespace JournalSession

variable {os : Os Path} {disk : Disk Path} {path : Path} {bufferBytes : Nat}

/-- A new writer on a new file whose header is taken. -/
theorem headed_streams (fresh : disk.content path = []) (room : recordBytes ≤ bufferBytes)
    (taken : os.writes disk.calls journalHeaderBytes = journalHeaderBytes) :
    Streams journalFormat (headed os bufferBytes disk path) path disk.content 1 [] where
  fd := rfl
  frame := by
    intro other apart
    rw [headed, Disk.content_write_other apart, Disk.content_create_other apart]
  buffered := (JournalWriter.sized_new room _ _).buffered
  room := room
  stored := by
    rw [content_headed fresh, taken]
    exact List.append_nil journalHeader
  next := rfl

theorem Streams.run {Item : Type*} {format : RecordFormat Item} {s : JournalSession Path}
    {others : Path → List UInt8} {first : UInt64} {items : List Item} (accepting : os.Accepting)
    (streams : Streams format s path others first items) (more : List Item) :
    Streams format (more.foldl (appendRecord format os) s) path others first (items ++ more) := by
  induction more generalizing s items with
  | nil => simpa using streams
  | cons item rest ih => simpa using ih (streams.append accepting item)

theorem recordsFrom_entries (seq : UInt64) (items : List (EventObject × UInt64)) :
    journalFormat.recordsFrom seq items = entriesBytes (entriesFrom seq items) := by
  induction items generalizing seq with
  | nil => rfl
  | cons item rest ih =>
    rw [RecordFormat.recordsFrom, ih, entriesFrom]
    rfl

/-- A new file is begun if it is opened and the system takes the whole header. -/
theorem openFile_begun (granted : os.opens path = true) (fresh : disk.content path = [])
    (taken : os.writes disk.calls journalHeaderBytes = journalHeaderBytes) :
    openFile os { writer := { bufferBytes }, disk } path =
      (headed os bufferBytes disk path, true) := by
  rw [openFile_new granted, writeHeaderIfNeeded_fresh os _ fresh, decide_eq_true taken]
  rfl

theorem openFile_answer (fresh : disk.content path = []) :
    (openFile os { writer := { bufferBytes }, disk } path).2 = true ↔
      os.opens path = true ∧ os.writes disk.calls journalHeaderBytes = journalHeaderBytes := by
  constructor
  · intro answered
    by_cases granted : os.opens path = true
    · refine ⟨granted, ?_⟩
      by_contra part
      rw [openFile_new granted, writeHeaderIfNeeded_fresh os _ fresh, decide_eq_false part] at answered
      cases answered
    · simp only [openFile, if_neg granted, Bool.false_eq_true] at answered
  · rintro ⟨granted, taken⟩
    rw [openFile_begun granted fresh taken]

/-- What is appended behind the header of a new file and closed is what the file holds. -/
theorem headed_appended (accepting : os.Accepting) (fresh : disk.content path = [])
    (room : recordBytes ≤ bufferBytes)
    (taken : os.writes disk.calls journalHeaderBytes = journalHeaderBytes)
    (items : List (EventObject × UInt64)) :
    let written := ((items.foldl (fun s item => s.append os item.1 item.2)
      (headed os bufferBytes disk path)).close os).disk
    written.files path = some (journalHeader ++ entriesBytes (entriesFrom 1 items)) ∧
      ∀ other, other ≠ path → written.content other = disk.content other := by
  intro written
  have appends : (fun (s : JournalSession Path) (item : EventObject × UInt64) =>
      s.append os item.1 item.2) = appendRecord journalFormat os := by
    funext s item
    exact append_eq item.1 item.2
  obtain ⟨stored, frame⟩ := ((headed_streams fresh room taken).run accepting items).close accepting
  rw [List.nil_append, recordsFrom_entries, ← appends] at stored
  rw [← appends] at frame
  exact ⟨Disk.files_eq stored (List.append_ne_nil_of_left_ne_nil (by decide) _), frame⟩

end JournalSession

/-- The checksum of a whole journal is that of the events it was made from. -/
theorem computeSemanticCrc_whole (items : List (EventObject × UInt64))
    (out : JournalSemanticStats) :
    computeSemanticCrc (some (journalHeader ++ entriesBytes (entriesFrom 1 items))) out =
      (true,
        { records := items.length
          crc := (items.map fun item => item.1.event).foldl updateCrcFromBookEvent 0
          crcFailures := 0 }) := by
  have round := round_trip_whole items
  have images := round.images
  have count := congrArg List.length images
  rw [List.length_map, List.length_map] at count
  have folded : ∀ entries : List JournalEntry, ∀ crc,
      entries.foldl (fun crc entry => updateCrcFromImage crc entry.image) crc =
        (entries.map (·.image)).foldl updateCrcFromImage crc := by
    intro entries crc
    rw [List.foldl_map]
  rw [computeSemanticCrc, if_pos round.opened, folded, images, round.crcFailures, count]
  simp only [List.foldl_map, updateCrcFromImage_image]
  rfl

section RunOnce

variable {os : Os Path} {disk : Disk Path} {path : Path}

/-- What a run that has begun its journal answers and leaves. -/
structure Mdp3RunOnce.Replays (looped : Mdp3Loop) (disk : Disk Path) (path : Path)
    (ran : Mdp3RunOnce Path) : Prop where
  answer : ran.answer = true
  semanticCrc : ran.semanticCrc = looped.events.foldl updateCrcFromBookEvent 0
  events : ran.events = looped.events.length
  packets : ran.packets = looped.packets
  stats : ran.stats = looped.stats
  frame : ∀ other, other ≠ path → ran.disk.content other = disk.content other

theorem mdp3RunOnce_replays (file : List UInt8) (memory : EventMemory) (accepting : os.Accepting)
    (granted : os.opens path = true) (fresh : disk.content path = [])
    (taken : os.writes disk.calls journalHeaderBytes = journalHeaderBytes) (maxPackets : UInt64)
    (clock : Nat → UInt64) :
    (mdp3RunOnce memory os file maxPackets clock disk path).Replays
      (Mdp3Loop.run maxPackets (arrivals file clock) 0 {}) disk path := by
  have opened := @JournalSession.openFile_begun _ _ os disk path Mdp3RunOnce.writerBufferBytes
    granted fresh taken
  obtain ⟨written, frame⟩ := JournalSession.headed_appended accepting fresh
    (show recordBytes ≤ Mdp3RunOnce.writerBufferBytes by decide) taken
    (memory.items (Mdp3Loop.run maxPackets (arrivals file clock) 0 {}).events)
  have checked := (congrArg (computeSemanticCrc · {}) written).trans
    (computeSemanticCrc_whole _ {})
  rw [memory.events_items, memory.length_items] at checked
  simp only [mdp3RunOnce, opened, if_true, checked]
  exact ⟨rfl, rfl, rfl, rfl, rfl, frame⟩

/-- A run answers true exactly if the journal can be begun. -/
theorem mdp3RunOnce_answer (file : List UInt8) (memory : EventMemory) (accepting : os.Accepting)
    (fresh : disk.content path = []) (maxPackets : UInt64) (clock : Nat → UInt64) :
    (mdp3RunOnce memory os file maxPackets clock disk path).answer = true ↔
      os.opens path = true ∧ os.writes disk.calls journalHeaderBytes = journalHeaderBytes := by
  constructor
  · intro answered
    by_contra refused
    rw [← @JournalSession.openFile_answer _ _ os disk path Mdp3RunOnce.writerBufferBytes fresh,
      Bool.not_eq_true] at refused
    simp only [mdp3RunOnce, refused, Bool.false_eq_true, if_false] at answered
  · rintro ⟨granted, taken⟩
    exact (mdp3RunOnce_replays file memory accepting granted fresh taken maxPackets clock).answer

end RunOnce

theorem arrivals_payloads (file : List UInt8) (clock later : Nat → UInt64) :
    (arrivals file clock).map Prod.fst = (arrivals file later).map Prod.fst := by
  have fronts : ∀ clock, (arrivals file clock).map Prod.fst = certBinPayloads file := by
    intro clock
    apply List.ext_getElem?
    intro i
    simp [arrivals, Function.comp_def]
  rw [fronts, fronts]

/-- The tool never finds its two runs to differ. Whatever the clock shows in them and whatever
the dump holds, it exits with 0 exactly if it can begin both journals and with 1 if not, and
what it prints is that of the packets in the dump's blocks up to the limit, parsed one after
another: the blocks without a payload and what is cut at the end are passed over. Where the
limit ends the loop, one packet more is counted than parsed. -/
theorem mdp3_rerun_stable (memory : EventMemory) (os : Os Path) (accepting : os.Accepting)
    (disk : Disk Path) (journalPath rerunPath : Path) (apart : rerunPath ≠ journalPath)
    (fresh : disk.content journalPath = []) (freshRerun : disk.content rerunPath = [])
    (file rest : List UInt8) (blocks : List CertBlock) (small : file.length < 2 ^ 64)
    (split : file.drop 10 = blocks.flatMap CertBlock.bytes ++ rest) (cut : CertBlock.Cut rest)
    (maxPackets : UInt64) (clocks : (Nat → UInt64) × (Nat → UInt64)) :
    let made := mdp3ReplayBench memory os disk (some file) maxPackets journalPath rerunPath clocks
    let first := mdp3RunOnce memory os file maxPackets clocks.1 disk journalPath
    let arrived := (CertBlock.payloads blocks).mapIdx fun i udp => (udp, clocks.1 i)
    let parsed := Mdp3.parsePackets
      (if maxPackets = 0 then arrived else arrived.take maxPackets.toNat) {}
    (made.exitCode = 0 ∨ made.exitCode = 1) ∧
      (made.exitCode = 0 ↔
        (os.opens journalPath = true ∧
          os.writes disk.calls journalHeaderBytes = journalHeaderBytes) ∧
        os.opens rerunPath = true ∧
          os.writes first.disk.calls journalHeaderBytes = journalHeaderBytes) ∧
      (made.exitCode = 0 →
        made.packets = UInt64.ofNat (if maxPackets = 0 then arrived.length
          else min arrived.length (maxPackets.toNat + 1)) ∧
        made.events = parsed.1.length ∧
        made.crc = parsed.1.foldl updateCrcFromBookEvent 0 ∧ first.stats = parsed.2) := by
  intro made first arrived parsed
  have same : arrivals file clocks.1 = arrived := by
    rw [arrivals, certBinPayloads_blocks split cut]
  have firstAnswer := mdp3RunOnce_answer file memory accepting fresh maxPackets clocks.1
  by_cases begun : os.opens journalPath = true ∧
      os.writes disk.calls journalHeaderBytes = journalHeaderBytes
  · have ran := mdp3RunOnce_replays file memory accepting begun.1 fresh begun.2
      maxPackets clocks.1
    have still : first.disk.content rerunPath = [] := (ran.frame rerunPath apart).trans freshRerun
    have secondAnswer := mdp3RunOnce_answer file memory accepting still maxPackets clocks.2
    by_cases again : os.opens rerunPath = true ∧
        os.writes first.disk.calls journalHeaderBytes = journalHeaderBytes
    · have reran := mdp3RunOnce_replays file memory accepting again.1 still again.2
        maxPackets clocks.2
      obtain ⟨events, packets, _⟩ := Mdp3Loop.run_restamped maxPackets
        (arrivals_payloads file clocks.1 clocks.2) 0 {}
      have crc : first.semanticCrc =
          (mdp3RunOnce memory os file maxPackets clocks.2 first.disk rerunPath).semanticCrc := by
        rw [ran.semanticCrc, reran.semanticCrc, ← crc_unstamped, ← crc_unstamped 0 (Mdp3Loop.run
          maxPackets (arrivals file clocks.2) 0 {}).events, events]
      have count : first.events =
          (mdp3RunOnce memory os file maxPackets clocks.2 first.disk rerunPath).events := by
        have lengths := congrArg List.length events
        rw [List.length_map, List.length_map] at lengths
        rw [ran.events, reran.events, lengths]
      have tool : made = { exitCode := 0, packets := first.packets, events := first.events
                           crc := first.semanticCrc } := by
        simp only [made, mdp3ReplayBench]
        rw [if_pos ran.answer, if_pos reran.answer, if_pos ⟨crc, count⟩]
      have few : (0 : UInt64).toNat + (arrivals file clocks.1).length < 2 ^ 64 := by
        rw [same]
        simp only [arrived, List.length_mapIdx, UInt64.toNat_zero, Nat.zero_add]
        exact (CertBlock.length_payloads_le split).trans_lt small
      have looped := Mdp3Loop.run_taken maxPackets few {}
      simp only [Mdp3Loop.taken, UInt64.toNat_zero, Nat.sub_zero, same, UInt64.zero_add] at looped
      obtain ⟨parsing, counted⟩ := looped
      rw [tool]
      refine ⟨.inl rfl, iff_of_true rfl ⟨begun, again⟩, fun _ => ⟨?_, ?_, ?_, ?_⟩⟩
      · rw [ran.packets, same]
        exact counted
      · rw [ran.events, same]
        exact congrArg (List.length ∘ Prod.fst) parsing
      · rw [ran.semanticCrc, same]
        exact congrArg (fun result => result.1.foldl updateCrcFromBookEvent 0) parsing
      · rw [ran.stats, same]
        exact congrArg Prod.snd parsing
    · have tool : made = { exitCode := 1 } := by
        simp only [made, mdp3ReplayBench]
        rw [if_pos ran.answer, if_neg (fun answered => again (secondAnswer.mp answered))]
      rw [tool]
      exact ⟨.inr rfl, iff_of_false (by decide) (fun both => again both.2),
        fun exited => absurd exited (by decide)⟩
  · have tool : made = { exitCode := 1 } := by
      simp only [made, mdp3ReplayBench]
      rw [if_neg (fun answered => begun (firstAnswer.mp answered))]
    rw [tool]
    exact ⟨.inr rfl, iff_of_false (by decide) (fun both => begun both.1),
      fun exited => absurd exited (by decide)⟩

/-- A block with a book message, one without a payload and three stray bytes; the clock stands
still in the first run and not in the second. -/
theorem mdp3_rerun_stable_two_blocks :
    let os : Os Nat := .partialWrites false 1000 1000
    let packet := List.replicate 12 0 ++ Mdp3.bookMessage
    let file := List.replicate 10 0 ++ ((List.replicate 8 0 ++ LengthPrefixed.encode 2 packet) ++
      (List.replicate 8 0 ++ LengthPrefixed.encode 2 []) ++ [0, 0, 0])
    let made := mdp3ReplayBench ⟨fun ev => { event := ev }, fun _ => rfl⟩ os
      { files := fun _ => none } (some file) 0 0 1 (fun _ => 7, fun i => UInt64.ofNat i)
    let parsed := Mdp3.parsePackets [(packet, 7)] {}
    made.exitCode = 0 ∧ made.packets = 1 ∧ made.events = parsed.1.length ∧
      made.crc = parsed.1.foldl updateCrcFromBookEvent 0 := by
  have whole : ∀ call, (Os.partialWrites false 1000 1000 : Os Nat).writes call
      journalHeaderBytes = journalHeaderBytes := by
    intro call
    simp [Os.partialWrites, journalHeaderBytes]
  obtain ⟨-, begun, printed⟩ := mdp3_rerun_stable ⟨fun ev => { event := ev }, fun _ => rfl⟩
    (.partialWrites false 1000 1000) (Os.partialWrites_accepting (by decide) (by decide))
    { files := fun _ => none } 0 1 (by decide) rfl rfl
    (List.replicate 10 0 ++ ((List.replicate 8 0 ++
      LengthPrefixed.encode 2 (List.replicate 12 0 ++ Mdp3.bookMessage)) ++
      (List.replicate 8 0 ++ LengthPrefixed.encode 2 []) ++ [0, 0, 0])) [0, 0, 0]
    [⟨List.replicate 8 0, List.replicate 12 0 ++ Mdp3.bookMessage, rfl, by decide⟩,
      ⟨List.replicate 8 0, [], rfl, by decide⟩] (by decide) rfl (.inl (by decide)) 0
    (fun _ => 7, fun i => UInt64.ofNat i)
  have exited := begun.mpr ⟨⟨rfl, whole _⟩, rfl, whole _⟩
  obtain ⟨packets, events, crc, -⟩ := printed exited
  exact ⟨exited, packets, events, crc⟩

end FeedHandler
