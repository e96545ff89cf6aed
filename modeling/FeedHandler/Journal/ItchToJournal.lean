import FeedHandler.Journal.Mdp3Replay
import FeedHandler.Proto.Itch50

/-! The converter of a recorded ITCH file: messages behind two-byte lengths are parsed and
journaled in the order of the file. -/
namespace FeedHandler

open AppendFile LengthPrefixed

/-- The locals of the loop, with the events given to the writer. -/
structure ItchLoop where
  bytesRead : Nat := 0
  messagesParsed : Nat := 0
  unhandledMsgCount : Nat := 0
  lastExchangeTsNs : UInt64 := 0
  seq : UInt64 := 1
  stats : ParseStats := {}
  events : List BookEvent := []

namespace ItchLoop

/-- An event without an exchange time takes the last one; the second part is the last one from
then on. -/
def fillForward (last : UInt64) (ev : BookEvent) : BookEvent × UInt64 :=
  if ev.exchangeTsNs = 0 ∧ last ≠ 0 then ({ ev with exchangeTsNs := last }, last)
  else if ev.exchangeTsNs ≠ 0 then (ev, ev.exchangeTsNs)
  else (ev, last)

/-- A whole message, with the time of its arrival. A malformed one takes a sequence too. The
answer is whether the limit on events ends the loop. -/
def message (maxEvents : UInt64) (s : ItchLoop) (msg : List UInt8) (now : UInt64) :
    ItchLoop × Bool :=
  let parsed := Itch50.parseMessage msg s.seq now s.stats
  let s := { s with
    bytesRead := s.bytesRead + msg.length
    messagesParsed := s.messagesParsed + 1
    seq := s.seq + 1
    stats := parsed.2 }
  match parsed.1 with
  | none => (s, false)
  | some ev =>
    let filled := fillForward s.lastExchangeTsNs ev
    let s := { s with
      unhandledMsgCount :=
        if ev.type = .unknown then s.unhandledMsgCount + 1 else s.unhandledMsgCount
      lastExchangeTsNs := filled.2
      events := s.events ++ [filled.1] }
    (s, decide (0 < maxEvents ∧ maxEvents.toNat ≤ s.events.length))

/-- The loop over what is left of the file. Every turn takes two bytes of it at least, so its
length is fuel enough. -/
def loop (maxEvents maxBytes : UInt64) (clock : Nat → UInt64) :
    Nat → List UInt8 → ItchLoop → ItchLoop
  | 0, _, s => s
  | fuel + 1, bytes, s =>
    if bytes.length < 2 then s
    else
      let s := { s with bytesRead := s.bytesRead + 2 }
      if 0 < maxBytes ∧ maxBytes.toNat < s.bytesRead then s
      else
        let msgLen := BigEndian.readAt bytes 0 2
        if msgLen = 0 then
          loop maxEvents maxBytes clock fuel (bytes.drop 2)
            { s with unhandledMsgCount := s.unhandledMsgCount + 1 }
        else if 0 < maxBytes ∧ maxBytes.toNat < s.bytesRead + msgLen then s
        else if bytes.length < 2 + msgLen then s
        else
          let taken := s.message maxEvents ((bytes.drop 2).take msgLen) (clock s.messagesParsed)
          if taken.2 then taken.1
          else loop maxEvents maxBytes clock fuel (bytes.drop (2 + msgLen)) taken.1

/-- The events of the messages behind `count` others, each numbered by the place of its message. -/
def parsed (clock : Nat → UInt64) (count : Nat) (messages : List (List UInt8)) : List BookEvent :=
  (messages.zipIdx count).filterMap fun placed =>
    (Itch50.parseMessage placed.1 (UInt64.ofNat (placed.2 + 1)) (clock placed.2) {}).1

/-- The last exchange time among those that are there. -/
def lastTime (events : List BookEvent) : Option UInt64 :=
  ((events.map BookEvent.exchangeTsNs).filter fun ts => ts ≠ 0).getLast?

/-- Each event has the last exchange time of the events up to it and its own, and `last` where
none of them has one. -/
def filledForward (last : UInt64) (events : List BookEvent) : List BookEvent :=
  events.mapIdx fun i ev =>
    { ev with exchangeTsNs := (lastTime (events.take (i + 1))).getD last }

/-- The events that the messages behind `count` others are converted to, `last` being the last
exchange time before them. -/
def converted (clock : Nat → UInt64) (count : Nat) (last : UInt64)
    (messages : List (List UInt8)) : List BookEvent :=
  filledForward last (parsed clock count messages)

/-- What a limit leaves of a list when some have been counted; a limit of 0 is none. -/
def upTo {α : Type*} (limit : UInt64) (counted : Nat) (items : List α) : List α :=
  if limit = 0 then items else items.take (limit.toNat - counted)

theorem limit_iff (limit : UInt64) (count : Nat) :
    0 < limit ∧ limit.toNat ≤ count ↔ limit ≠ 0 ∧ limit.toNat ≤ count := by
  rw [UInt64.lt_iff_toNat_lt, ne_eq, ← UInt64.toNat_inj]
  exact and_congr_left fun _ => Nat.pos_iff_ne_zero

theorem limit_lt_iff (limit : UInt64) (count : Nat) :
    0 < limit ∧ limit.toNat < count ↔ limit ≠ 0 ∧ limit.toNat < count := by
  rw [UInt64.lt_iff_toNat_lt, ne_eq, ← UInt64.toNat_inj]
  exact and_congr_left fun _ => Nat.pos_iff_ne_zero

section UpTo

variable {α : Type*} {limit : UInt64} {counted : Nat} {items : List α}

theorem upTo_drop (limit : UInt64) (counted count : Nat) (items : List α) :
    upTo limit (counted + count) (items.drop count) = (upTo limit counted items).drop count := by
  unfold upTo
  split
  · rfl
  · rw [List.drop_take, Nat.sub_sub]

theorem upTo_initial : upTo limit counted items <+: items := by
  unfold upTo
  split
  · exact List.prefix_refl _
  · exact List.take_prefix _ _

theorem length_upTo (limit : UInt64) (counted : Nat) (items : List α) :
    (upTo limit counted items).length =
      if limit = 0 then items.length else min (limit.toNat - counted) items.length := by
  unfold upTo
  split
  · rfl
  · exact List.length_take

theorem upTo_cons (below : limit = 0 ∨ counted < limit.toNat) (item : α) (rest : List α) :
    upTo limit counted (item :: rest) = item :: upTo limit (counted + 1) rest := by
  unfold upTo
  split
  · rfl
  · next limited =>
    have some_left : limit.toNat - counted = limit.toNat - (counted + 1) + 1 := by
      have := below.resolve_left limited
      omega
    rw [some_left, List.take_succ_cons]

theorem upTo_reached (reached : limit ≠ 0 ∧ limit.toNat ≤ counted) :
    upTo limit counted items = [] := by
  rw [upTo, if_neg reached.1, Nat.sub_eq_zero_of_le reached.2, List.take_zero]

end UpTo

/-- What the parser finds does not depend on its counters. -/
theorem parseMessage_event (payload : List UInt8) (sequence ingestTsNs : UInt64)
    (stats : ParseStats) : (Itch50.parseMessage payload sequence ingestTsNs stats).1 =
      (Itch50.parseMessage payload sequence ingestTsNs {}).1 := by
  unfold Itch50.parseMessage
  split
  · rfl
  · split <;> rfl

theorem fillForward_eq (last : UInt64) (ev : BookEvent) :
    fillForward last ev = ({ ev with exchangeTsNs := (lastTime [ev]).getD last },
      (lastTime [ev]).getD last) := by
  unfold fillForward
  by_cases absent : ev.exchangeTsNs = 0
  · have none_there : (lastTime [ev]).getD last = last := by simp [lastTime, absent]
    rw [none_there]
    by_cases first : last = 0
    · subst first
      simp only [absent, ne_eq, not_true, and_false, if_false]
      rw [← absent]
    · simp [absent, first]
  · have own : (lastTime [ev]).getD last = ev.exchangeTsNs := by simp [lastTime, absent]
    simp only [absent, false_and, if_false, ne_eq, not_false_eq_true, if_true, own]

theorem lastTime_cons (last : UInt64) (ev : BookEvent) (events : List BookEvent) :
    (lastTime (ev :: events)).getD last = (lastTime events).getD ((lastTime [ev]).getD last) := by
  have split : lastTime (ev :: events) = (lastTime events).or (lastTime [ev]) := by
    rw [← List.singleton_append, lastTime, List.map_append, List.filter_append,
      List.getLast?_append]
    rfl
  rw [split]
  cases lastTime events <;> rfl

/-- Filling forward one event after the other, as the loop does. -/
theorem filledForward_cons (last : UInt64) (ev : BookEvent) (events : List BookEvent) :
    filledForward last (ev :: events) =
      (fillForward last ev).1 :: filledForward (fillForward last ev).2 events := by
  have later := fun i => lastTime_cons last ev (events.take i)
  rw [filledForward, List.mapIdx_cons, fillForward_eq, filledForward]
  simp only [List.take_succ_cons, List.take_zero, later]

theorem converted_cons (clock : Nat → UInt64) (count : Nat) (last : UInt64) (message : List UInt8)
    (rest : List (List UInt8)) :
    converted clock count last (message :: rest) =
      match (Itch50.parseMessage message (UInt64.ofNat (count + 1)) (clock count) {}).1 with
      | none => converted clock (count + 1) last rest
      | some ev =>
        (fillForward last ev).1 :: converted clock (count + 1) (fillForward last ev).2 rest := by
  rw [converted, parsed, List.zipIdx_cons, List.filterMap_cons]
  cases (Itch50.parseMessage message (UInt64.ofNat (count + 1)) (clock count) {}).1 with
  | none => rfl
  | some ev => exact filledForward_cons last ev _

section Loop

variable {maxEvents maxBytes : UInt64} {clock : Nat → UInt64} {bytes body later rest : List UInt8}
  {bodies : List (List UInt8)} {s : ItchLoop}

/-- Where the limit or the file cuts a message off, the loop ends. -/
theorem loop_truncated (cut : Truncated 2 (upTo maxBytes s.bytesRead bytes)) (fuel : Nat) :
    (loop maxEvents maxBytes clock fuel bytes s).events = s.events := by
  cases fuel with
  | zero => rfl
  | succ fuel =>
    simp only [loop, limit_lt_iff]
    by_cases short : bytes.length < 2
    · rw [if_pos short]
    by_cases beyond : maxBytes ≠ 0 ∧ maxBytes.toNat < s.bytesRead + 2
    · rw [if_neg short, if_pos beyond]
    have length := length_upTo maxBytes s.bytesRead bytes
    have field : 2 ≤ (upTo maxBytes s.bytesRead bytes).length := by
      rw [length]
      split
      · omega
      · next limited =>
        have within := not_lt.mp fun less => beyond ⟨limited, less⟩
        omega
    have same : BigEndian.readAt (upTo maxBytes s.bytesRead bytes) 0 2 =
        BigEndian.readAt bytes 0 2 := by
      obtain ⟨tail, whole⟩ := (upTo_initial : upTo maxBytes s.bytesRead bytes <+: bytes)
      have front : bytes.take 2 = (upTo maxBytes s.bytesRead bytes).take 2 := by
        conv_lhs => rw [← whole]
        exact List.take_append_of_le_length field
      rw [BigEndian.readAt, BigEndian.readAt, List.drop_zero, List.drop_zero, front]
    have announced := cut.resolve_left (by omega)
    rw [same, length] at announced
    have some_bytes : BigEndian.readAt bytes 0 2 ≠ 0 := by
      intro none
      rw [none, ← length] at announced
      omega
    rw [if_neg short, if_neg beyond, if_neg some_bytes]
    by_cases behind : maxBytes ≠ 0 ∧ maxBytes.toNat < s.bytesRead + 2 + BigEndian.readAt bytes 0 2
    · rw [if_pos behind]
    · have cut_off : bytes.length < 2 + BigEndian.readAt bytes 0 2 := by
        split at announced
        · exact announced
        · next limited =>
          have within := not_lt.mp fun less => behind ⟨limited, less⟩
          omega
      rw [if_neg behind, if_pos cut_off]

/-- A message within the limit is taken off the front. -/
theorem loop_encode (fits : body.length < 256 ^ 2)
    (front : upTo maxBytes s.bytesRead bytes = encode 2 body ++ later) (fuel : Nat) :
    ∃ behind, upTo maxBytes (s.bytesRead + 2 + body.length) behind = later ∧
      loop maxEvents maxBytes clock (fuel + 1) bytes s =
        if body = [] then
          loop maxEvents maxBytes clock fuel behind { s with
            bytesRead := s.bytesRead + 2
            unhandledMsgCount := s.unhandledMsgCount + 1 }
        else
          let taken := { s with bytesRead := s.bytesRead + 2 }.message maxEvents body
            (clock s.messagesParsed)
          if taken.2 then taken.1 else loop maxEvents maxBytes clock fuel behind taken.1 := by
  obtain ⟨tail, whole⟩ := (upTo_initial : upTo maxBytes s.bytesRead bytes <+: bytes)
  rw [front, List.append_assoc] at whole
  have size := congrArg List.length front
  have all := congrArg List.length whole
  rw [List.length_append, length_encode] at size all
  have length := length_upTo maxBytes s.bytesRead bytes
  have within : ∀ width, width ≤ 2 + body.length →
      ¬ (maxBytes ≠ 0 ∧ maxBytes.toNat < s.bytesRead + width) := by
    rintro width inside ⟨limited, less⟩
    rw [length, if_neg limited] at size
    omega
  have field : BigEndian.readAt bytes 0 2 = body.length := by rw [← whole, readAt_encode fits]
  have short : ¬ bytes.length < 2 := by omega
  have cut : ¬ bytes.length < 2 + body.length := by omega
  refine ⟨bytes.drop (2 + body.length), ?_, ?_⟩
  · rw [Nat.add_assoc, upTo_drop, front, drop_encode]
  · have msg : (bytes.drop 2).take body.length = body := by rw [← whole, take_encode]
    simp only [loop, limit_lt_iff, if_neg short, field, msg, if_neg cut]
    rw [if_neg (within 2 (by omega)), Nat.add_assoc, if_neg (within _ le_rfl)]
    by_cases empty : body = []
    · subst empty
      simp
    · rw [if_neg empty, if_neg (List.length_eq_zero_iff.not.mpr empty)]

/-- The loop journals the events of the messages within the limit on bytes, up to the limit on
events; the messages without bytes are passed over. -/
theorem loop_events (splits : Splits 2 (upTo maxBytes s.bytesRead bytes) bodies rest)
    {fuel : Nat} (enough : bodies.length < fuel)
    (counted : s.seq = UInt64.ofNat (s.messagesParsed + 1))
    (below : maxEvents = 0 ∨ s.events.length < maxEvents.toNat) :
    (loop maxEvents maxBytes clock fuel bytes s).events =
      s.events ++ upTo maxEvents s.events.length
        (converted clock s.messagesParsed s.lastExchangeTsNs
          (bodies.filter fun body => body ≠ [])) := by
  induction bodies generalizing fuel bytes s with
  | nil =>
    obtain ⟨-, cut⟩ := Splits.nil_iff.mp splits
    have nothing : converted clock s.messagesParsed s.lastExchangeTsNs [] = [] := rfl
    rw [loop_truncated cut, List.filter_nil, nothing, List.prefix_nil.mp upTo_initial,
      List.append_nil]
  | cons body bodies ih =>
    obtain ⟨fits, later, front, others⟩ := Splits.cons_iff.mp splits
    obtain ⟨fuel, rfl⟩ := Nat.exists_eq_add_one.mpr (Nat.zero_lt_of_lt enough)
    obtain ⟨behind, left, turn⟩ := @loop_encode maxEvents maxBytes clock bytes body later s fits
      front fuel
    rw [← left] at others
    have few : bodies.length < fuel := by
      rw [List.length_cons] at enough
      omega
    rw [turn]
    by_cases empty : body = []
    · subst empty
      rw [if_pos rfl, List.filter_cons_of_neg (by simp)]
      exact ih others few counted below
    · rw [if_neg empty, List.filter_cons_of_pos (by simpa using empty), converted_cons]
      have next : s.seq + 1 = UInt64.ofNat (s.messagesParsed + 1 + 1) := by
        rw [counted, UInt64.ofNat_add (s.messagesParsed + 1) 1]
        rfl
      have found := parseMessage_event body s.seq (clock s.messagesParsed) s.stats
      rw [counted] at found
      cases parsed : (Itch50.parseMessage body (UInt64.ofNat (s.messagesParsed + 1))
          (clock s.messagesParsed) {}).1 with
      | none =>
        rw [parsed, ← counted] at found
        simp only [message, found, Bool.false_eq_true, if_false]
        exact ih others few next below
      | some ev =>
        rw [parsed, ← counted] at found
        simp only [message, found, decide_eq_true_eq, limit_iff]
        rw [upTo_cons below]
        split
        · next reached =>
          rw [List.length_append, List.length_singleton] at reached
          rw [upTo_reached reached]
        · next more =>
          have length : (s.events ++ [(fillForward s.lastExchangeTsNs ev).1]).length =
              s.events.length + 1 := by
            rw [List.length_append, List.length_singleton]
          rw [length] at more
          have room : maxEvents = 0 ∨ s.events.length + 1 < maxEvents.toNat := by
            by_cases none : maxEvents = 0
            · exact .inl none
            · exact .inr (not_le.mp fun reached => more ⟨none, reached⟩)
          rw [← length] at room
          rw [ih others few next room]
          simp only [length, List.append_assoc, List.singleton_append]

end Loop

end ItchLoop

namespace ItchLoop

theorem fillForward_stamp (last : UInt64) (ev : BookEvent) :
    (fillForward last ev).1.venue = ev.venue ∧
      (fillForward last ev).1.sequence = ev.sequence := by
  unfold fillForward
  split
  · exact ⟨rfl, rfl⟩
  · split <;> exact ⟨rfl, rfl⟩

/-- The record of the message is as long as its type asks for. -/
def Whole (message : List UInt8) : Prop :=
  ∃ type body, message = type :: body ∧ Itch50.recordSize type ≤ body.length

/-- Where every message is whole, there is an event for each, numbered from 1. -/
theorem converted_whole (clock : Nat → UInt64) (count : Nat) (last : UInt64)
    {messages : List (List UInt8)} (whole : ∀ message ∈ messages, Whole message) :
    let events := converted clock count last messages
    events.length = messages.length ∧ ∀ i ev, events[i]? = some ev →
      ev.venue = .nasdaq ∧ ev.sequence = UInt64.ofNat (count + i + 1) := by
  induction messages generalizing count last with
  | nil => exact ⟨rfl, fun i ev found => by cases found⟩
  | cons message rest ih =>
    obtain ⟨type, body, rfl, long⟩ := whole message List.mem_cons_self
    obtain ⟨ev, parsed⟩ : ∃ ev, (Itch50.parseMessage (type :: body) (UInt64.ofNat (count + 1))
        (clock count) {}).1 = some ev := by
      rw [Itch50.parseMessage, if_neg (not_lt.mpr long)]
      exact ⟨_, rfl⟩
    obtain ⟨venue, sequence⟩ := Itch50.parseMessage_stamp parsed
    obtain ⟨venueKept, sequenceKept⟩ := fillForward_stamp last ev
    obtain ⟨length, later⟩ := ih (count + 1) (fillForward last ev).2
      (fun other listed => whole other (List.mem_cons_of_mem _ listed))
    rw [converted_cons, parsed]
    refine ⟨by rw [List.length_cons, List.length_cons, length], fun i other found => ?_⟩
    cases i with
    | zero =>
      obtain rfl := Option.some.inj found
      exact ⟨venueKept.trans venue, sequenceKept.trans sequence⟩
    | succ i =>
      have numbered := later i other found
      rwa [Nat.add_right_comm count 1 i] at numbered

end ItchLoop

/-- What `itch_to_journal` exits with, prints and leaves on the disk. -/
structure ItchToJournal (Path : Type*) where
  exitCode : Nat
  looped : ItchLoop := {}
  disk : Disk Path

variable {Path : Type*} [DecidableEq Path]

/-- There is a journal that is not to be continued. -/
def ItchToJournal.overwrites (disk : Disk Path) (outPath : Path) (append : Bool) : Bool :=
  !append && (disk.files outPath).isSome

def ItchToJournal.cleared (disk : Disk Path) (outPath : Path) (append : Bool) : Disk Path :=
  if overwrites disk outPath append then disk.remove outPath else disk

open ItchToJournal (overwrites cleared) in
/-- `itch_to_journal` with its two paths, `input` being the file at the first of them; `removes`
is whether the system lets an existing journal be removed. -/
def itchToJournal (memory : EventMemory) (os : Os Path) (removes : Bool) (disk : Disk Path)
    (input : Option (List UInt8)) (outPath : Path) (maxEvents maxBytes : UInt64) (append : Bool)
    (clock : Nat → UInt64) : ItchToJournal Path :=
  match input with
  | none => { exitCode := 1, disk }
  | some file =>
    if overwrites disk outPath append && !removes then { exitCode := 1, disk }
    else
      let disk := cleared disk outPath append
      let opened := JournalSession.openFile os { writer := { bufferBytes := 2 ^ 20 }, disk } outPath
      if opened.2 then
        let looped := ItchLoop.loop maxEvents maxBytes clock (file.length + 1) file {}
        let written := (memory.items looped.events).foldl
          (fun s item => s.append os item.1 item.2) opened.1
        { exitCode := 0, looped, disk := (written.close os).disk }
      else { exitCode := 1, disk := opened.1.disk }

namespace ItchLoop

/-- The events that a conversion journals. -/
def journaled (maxEvents : UInt64) (clock : Nat → UInt64) (messages : List (List UInt8)) :
    List BookEvent :=
  upTo maxEvents 0 (converted clock 0 0 (messages.filter fun message => message ≠ []))

end ItchLoop

variable {os : Os Path} {disk : Disk Path} {outPath : Path} {file rest : List UInt8}
  {messages : List (List UInt8)}

namespace ItchToJournal

variable {append : Bool}

omit [DecidableEq Path] in
theorem kept_iff (removes : Bool) : (overwrites disk outPath append && !removes) = true ↔
    ¬ (append = true ∨ disk.files outPath = none ∨ removes = true) := by
  unfold overwrites
  cases append <;> cases removes <;> simp [Option.isSome_iff_ne_none]

theorem cleared_spec (fresh : append = true → disk.content outPath = []) :
    (cleared disk outPath append).content outPath = [] ∧
      (cleared disk outPath append).calls = disk.calls ∧
      ∀ other, other ≠ outPath →
        (cleared disk outPath append).content other = disk.content other := by
  unfold cleared
  split
  · exact ⟨Disk.content_remove disk outPath, rfl, fun _ apart => Disk.content_remove_other apart disk⟩
  · next same =>
    refine ⟨?_, rfl, fun _ _ => rfl⟩
    cases append with
    | true => exact fresh rfl
    | false =>
      rw [overwrites, Bool.not_false, Bool.true_and, Option.not_isSome_iff_eq_none] at same
      rw [Disk.content, same, Option.getD_none]

end ItchToJournal

/-- The converter exits with 0 exactly if an old journal can be removed and the new one begun. -/
theorem itchToJournal_exit (memory : EventMemory) (removes append : Bool)
    (fresh : append = true → disk.content outPath = []) (maxEvents maxBytes : UInt64)
    (clock : Nat → UInt64) :
    let made := itchToJournal memory os removes disk (some file) outPath maxEvents maxBytes append
      clock
    (made.exitCode = 0 ∨ made.exitCode = 1) ∧
      (made.exitCode = 0 ↔
        (append = true ∨ disk.files outPath = none ∨ removes = true) ∧
          os.opens outPath = true ∧
            os.writes disk.calls journalHeaderBytes = journalHeaderBytes) := by
  intro made
  obtain ⟨emptied, calls, -⟩ := ItchToJournal.cleared_spec fresh
  have answer := @JournalSession.openFile_answer _ _ os
    (ItchToJournal.cleared disk outPath append) outPath (2 ^ 20) emptied
  rw [calls] at answer
  rw [← answer]
  by_cases goes : append = true ∨ disk.files outPath = none ∨ removes = true
  · have kept : (ItchToJournal.overwrites disk outPath append && !removes) = false := by
      rw [← Bool.not_eq_true, ItchToJournal.kept_iff]
      exact not_not.mpr goes
    simp only [made, itchToJournal, kept, Bool.false_eq_true, if_false, goes, true_and]
    split
    · next opened => exact ⟨.inl rfl, iff_of_true rfl opened⟩
    · next refused => exact ⟨.inr rfl, iff_of_false Nat.one_ne_zero refused⟩
  · simp only [made, itchToJournal, (ItchToJournal.kept_iff removes).mpr goes, if_true]
    exact ⟨.inr trivial, iff_of_false Nat.one_ne_zero fun both => goes both.1⟩

theorem itchToJournal_made (memory : EventMemory) (accepting : os.Accepting) (removes append : Bool)
    (fresh : append = true → disk.content outPath = []) (maxEvents maxBytes : UInt64)
    (split : Splits 2 (ItchLoop.upTo maxBytes 0 file) messages rest) (clock : Nat → UInt64) :
    let made := itchToJournal memory os removes disk (some file) outPath maxEvents maxBytes append
      clock
    let events := ItchLoop.journaled maxEvents clock messages
    made.exitCode = 0 → made.looped.events = events ∧
      made.disk.files outPath =
        some (journalHeader ++ entriesBytes (entriesFrom 1 (memory.items events))) ∧
      ∀ other, other ≠ outPath → made.disk.content other = disk.content other := by
  intro made events exited
  obtain ⟨goes, begun⟩ :=
    (itchToJournal_exit memory removes append fresh maxEvents maxBytes clock).2.mp exited
  have looped : (ItchLoop.loop maxEvents maxBytes clock (file.length + 1) file {}).events =
      events := by
    have enough : messages.length < file.length + 1 :=
      Nat.lt_succ_of_le ((split.length_le (by decide)).trans ItchLoop.upTo_initial.length_le)
    have below : maxEvents = 0 ∨ 0 < maxEvents.toNat := by
      by_cases none : maxEvents = 0
      · exact .inl none
      · exact .inr (Nat.pos_of_ne_zero fun zero => none (UInt64.toNat_inj.mp zero))
    exact (ItchLoop.loop_events (s := {}) split enough rfl below).trans (List.nil_append _)
  have kept : (ItchToJournal.overwrites disk outPath append && !removes) = false := by
    rw [← Bool.not_eq_true, ItchToJournal.kept_iff]
    exact not_not.mpr goes
  obtain ⟨emptied, calls, others⟩ := ItchToJournal.cleared_spec fresh
  have taken := calls ▸ begun.2
  have opened := @JournalSession.openFile_begun _ _ os
    (ItchToJournal.cleared disk outPath append) outPath (2 ^ 20) begun.1 emptied taken
  obtain ⟨stored, frame⟩ := JournalSession.headed_appended accepting emptied
    (show recordBytes ≤ 2 ^ 20 by decide) taken (memory.items events)
  have tool : made.looped.events = events ∧
      made.disk = (((memory.items events).foldl (fun s item => s.append os item.1 item.2)
        (JournalSession.headed os (2 ^ 20) (ItchToJournal.cleared disk outPath append)
          outPath)).close os).disk := by
    simp only [made, itchToJournal, kept, Bool.false_eq_true, if_false, opened, if_true, looped]
    exact ⟨trivial, trivial⟩
  refine ⟨tool.1, by rw [tool.2, stored], fun other apart => ?_⟩
  rw [tool.2, frame other apart, others other apart]

/-- A conversion onto a new journal, or over an old one, journals the messages of the file that
lie within the limits, whatever the rest of the file is: each that parses becomes one record, in
the order of the file. It exits with 1 exactly if the journal cannot be begun. -/
theorem itch_file_journaled (memory : EventMemory) (accepting : os.Accepting) (removes append : Bool)
    (fresh : append = true → disk.content outPath = []) (maxEvents maxBytes : UInt64)
    (split : Splits 2 (ItchLoop.upTo maxBytes 0 file) messages rest) (clock : Nat → UInt64) :
    let made := itchToJournal memory os removes disk (some file) outPath maxEvents maxBytes append
      clock
    let events := ItchLoop.journaled maxEvents clock messages
    (made.exitCode = 0 ∨ made.exitCode = 1) ∧
      (made.exitCode = 0 ↔
        (append = true ∨ disk.files outPath = none ∨ removes = true) ∧
          os.opens outPath = true ∧ os.writes disk.calls journalHeaderBytes = journalHeaderBytes) ∧
      (made.exitCode = 0 → made.looped.events = events ∧
        made.disk.files outPath =
          some (journalHeader ++ entriesBytes (entriesFrom 1 (memory.items events))) ∧
        ∀ other, other ≠ outPath → made.disk.content other = disk.content other) := by
  intro made events
  obtain ⟨exits, begun⟩ := itchToJournal_exit memory removes append fresh maxEvents maxBytes clock
  exact ⟨exits, begun,
    itchToJournal_made memory accepting removes append fresh maxEvents maxBytes split clock⟩

/-- A system event, a message without bytes and two stray ones, over an old journal. -/
theorem itch_file_journaled_system_event :
    let os : Os Nat := .partialWrites false 1000 1000
    let memory : EventMemory := ⟨fun ev => { event := ev }, fun _ => rfl⟩
    let file := encode 2 ('S'.toUInt8 :: List.replicate 11 0) ++ encode 2 [] ++ [0, 9]
    let made := itchToJournal memory os true { files := fun _ => some [1] } (some file) 0 0 0 false
      fun _ => 7
    let events := ItchLoop.journaled 0 (fun _ => 7) ['S'.toUInt8 :: List.replicate 11 0, []]
    made.exitCode = 0 ∧ events.map BookEvent.sequence = [1] ∧ made.looped.events = events ∧
      made.disk.files 0 =
        some (journalHeader ++ entriesBytes (entriesFrom 1 (memory.items events))) := by
  obtain ⟨-, begun, written⟩ := @itch_file_journaled Nat _ (.partialWrites false 1000 1000)
    { files := fun _ => some [1] } 0
    (encode 2 ('S'.toUInt8 :: List.replicate 11 0) ++ encode 2 [] ++ [0, 9]) [0, 9]
    ['S'.toUInt8 :: List.replicate 11 0, []] ⟨fun ev => { event := ev }, fun _ => rfl⟩
    (Os.partialWrites_accepting (by decide) (by decide)) true false (fun never => by cases never)
    0 0 ⟨by decide, by decide, .inr (by decide)⟩ fun _ => 7
  have exited := begun.mpr ⟨.inr (.inr rfl), rfl, rfl⟩
  obtain ⟨journaled, stored, -⟩ := written exited
  exact ⟨exited, by decide +kernel, journaled, stored⟩

end FeedHandler
