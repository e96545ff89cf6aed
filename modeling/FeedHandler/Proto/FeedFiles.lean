import FeedHandler.Core.Crc32
import FeedHandler.Lib.LengthPrefixed
import FeedHandler.Proto.CboePitch
import FeedHandler.Proto.IexDeep

/-! Recorded feed files, read message by message. The readers count, keep a checksum and pass
the events on; what becomes of the events is a parameter, and so is the parser. -/
namespace FeedHandler

open LengthPrefixed

/-- A parser of single messages with its counters. What it finds does not depend on the counters,
and has the venue of the parser and the sequence that was asked for. -/
structure MessageParser (Stats : Type) where
  venue : Venue
  initial : Stats
  parseMessage : List UInt8 → UInt64 → UInt64 → Stats → Option BookEvent × Stats
  malformedMessages : Stats → UInt64
  blind : ∀ payload sequence now stats,
    (parseMessage payload sequence now stats).1 = (parseMessage payload sequence now initial).1
  stamped : ∀ {payload sequence now stats ev},
    (parseMessage payload sequence now stats).1 = some ev → ev.venue = venue ∧ ev.sequence = sequence

def itch50Parser : MessageParser ParseStats where
  venue := .nasdaq
  initial := {}
  parseMessage := Itch50.parseMessage
  malformedMessages := ParseStats.malformedMessages
  blind payload sequence now stats := by
    unfold Itch50.parseMessage
    split
    · rfl
    · split <;> rfl
  stamped := Itch50.parseMessage_stamp

def deepParser : MessageParser IexDeep.ParseStats where
  venue := .iex
  initial := {}
  parseMessage := IexDeep.parseMessage
  malformedMessages := IexDeep.ParseStats.malformedMessages
  blind payload sequence now stats := by
    unfold IexDeep.parseMessage
    split
    · rfl
    · simp only
      split
      · rfl
      · split <;> rfl
  stamped := IexDeep.parseMessage_stamp

def pitchParser : MessageParser ParseStats where
  venue := .cboe
  initial := {}
  parseMessage := CboePitch.parseMessage
  malformedMessages := ParseStats.malformedMessages
  blind payload sequence now stats := by
    unfold CboePitch.parseMessage
    split
    · rfl
    · simp only
      split
      · rfl
      · split <;> rfl
  stamped := CboePitch.parseMessage_stamp

namespace MessageParser

variable {Stats : Type}

/-- The event of a message. -/
def event (parser : MessageParser Stats) (msg : List UInt8) (sequence now : UInt64) :
    Option BookEvent :=
  (parser.parseMessage msg sequence now parser.initial).1

/-- The events of messages that are numbered from `seq` on; a message without an event takes a
number too. -/
def events (parser : MessageParser Stats) (clock : Nat → UInt64) :
    Nat → List (List UInt8) → List BookEvent
  | _, [] => []
  | seq, msg :: rest =>
    (parser.event msg (UInt64.ofNat seq) (clock seq)).toList ++ parser.events clock (seq + 1) rest

/-- The counters after these messages. -/
def counted (parser : MessageParser Stats) (clock : Nat → UInt64) :
    Nat → Stats → List (List UInt8) → Stats
  | _, stats, [] => stats
  | seq, stats, msg :: rest =>
    parser.counted clock (seq + 1)
      (parser.parseMessage msg (UInt64.ofNat seq) (clock seq) stats).2 rest

variable {parser : MessageParser Stats} {clock : Nat → UInt64} {seq : Nat}
  {msgs : List (List UInt8)} {ev : BookEvent}

theorem event_seq {msg : List UInt8} (few : seq < 2 ^ 64)
    (found : parser.event msg (UInt64.ofNat seq) (clock seq) = some ev) : ev.seq = seq := by
  have stamp := (parser.stamped found).2
  rw [BookEvent.seq, stamp]
  exact UInt64.toNat_ofNat_of_lt' few

theorem mem_events (member : ev ∈ parser.events clock seq msgs)
    (few : seq + msgs.length ≤ 2 ^ 64) :
    ev.venue = parser.venue ∧ seq ≤ ev.seq ∧ ev.seq < seq + msgs.length := by
  induction msgs generalizing seq with
  | nil => exact absurd member List.not_mem_nil
  | cons msg rest ih =>
    rw [List.length_cons] at few ⊢
    rcases List.mem_append.mp member with here | later
    · have found := Option.mem_toList.mp here
      have same := event_seq (by omega) found
      exact ⟨(parser.stamped found).1, by omega, by omega⟩
    · obtain ⟨venue, low, high⟩ := ih later (by omega)
      exact ⟨venue, by omega, by omega⟩

/-- The sequences of the events grow, with a gap where a message has none. -/
theorem events_increasing (few : seq + msgs.length ≤ 2 ^ 64) :
    ((parser.events clock seq msgs).map BookEvent.seq).Pairwise (· < ·) := by
  induction msgs generalizing seq with
  | nil => exact List.Pairwise.nil
  | cons msg rest ih =>
    rw [List.length_cons] at few
    rw [events, List.map_append, List.pairwise_append]
    refine ⟨?_, ih (by omega), ?_⟩
    · cases parser.event msg (UInt64.ofNat seq) (clock seq) with
      | none => exact List.Pairwise.nil
      | some ev => exact List.pairwise_singleton _ _
    · intro a first b later
      obtain ⟨e, here, rfl⟩ := List.mem_map.mp first
      obtain ⟨e', there, rfl⟩ := List.mem_map.mp later
      have same := event_seq (by omega) (Option.mem_toList.mp here)
      have low := (mem_events there (by omega)).2.1
      omega

theorem length_events_le : (parser.events clock seq msgs).length ≤ msgs.length := by
  induction msgs generalizing seq with
  | nil => exact Nat.le_refl _
  | cons msg rest ih =>
    have := @ih (seq + 1)
    rw [events, List.length_append, List.length_cons]
    cases parser.event msg (UInt64.ofNat seq) (clock seq) with
    | none => simp only [Option.toList_none, List.length_nil]; omega
    | some ev => simp only [Option.toList_some, List.length_singleton]; omega

/-- Where every message has an event the sequences have no gap. -/
theorem events_counted (few : seq + msgs.length ≤ 2 ^ 64)
    (all : (parser.events clock seq msgs).length = msgs.length) :
    (parser.events clock seq msgs).map BookEvent.seq = List.range' seq msgs.length := by
  induction msgs generalizing seq with
  | nil => rfl
  | cons msg rest ih =>
    have most := @length_events_le _ parser clock (seq + 1) rest
    rw [List.length_cons] at few
    rw [events, List.length_append, List.length_cons] at all
    cases found : parser.event msg (UInt64.ofNat seq) (clock seq) with
    | none =>
      rw [found, Option.toList_none, List.length_nil] at all
      omega
    | some ev =>
      rw [found, Option.toList_some, List.length_singleton] at all
      rw [events, found, List.length_cons, List.range'_succ, List.map_append,
        ih (by omega) (by omega)]
      exact congrArg (· :: _) (event_seq (by omega) found)

theorem events_append (front back : List (List UInt8)) :
    parser.events clock seq (front ++ back) =
      parser.events clock seq front ++ parser.events clock (seq + front.length) back := by
  induction front generalizing seq with
  | nil => rfl
  | cons msg rest ih =>
    rw [List.cons_append, events, events, ih, List.length_cons, List.append_assoc, Nat.add_assoc,
      Nat.add_comm 1 rest.length]

theorem counted_append (stats : Stats) (front back : List (List UInt8)) :
    parser.counted clock seq stats (front ++ back) =
      parser.counted clock (seq + front.length) (parser.counted clock seq stats front) back := by
  induction front generalizing seq stats with
  | nil => rfl
  | cons msg rest ih =>
    rw [List.cons_append, counted, counted, ih, List.length_cons, Nat.add_assoc,
      Nat.add_comm 1 rest.length]

end MessageParser

structure RunSummary where
  frames : Nat := 0
  parsed : Nat := 0
  malformed : Nat := 0
  crc : UInt32 := 0
  deriving DecidableEq, Repr

/-- The locals of a reader, and where its events go. -/
structure FeedRun (Stats σ : Type) where
  summary : RunSummary := {}
  seq : Nat := 1
  stats : Stats
  out : σ

namespace FeedRun

variable {Stats σ : Type}

def malformed (s : FeedRun Stats σ) (n : Nat) : FeedRun Stats σ :=
  { s with summary := { s.summary with malformed := s.summary.malformed + n } }

/-- A message; it takes its sequence whether it is malformed or not. -/
def message (parser : MessageParser Stats) (clock : Nat → UInt64) (sink : σ → BookEvent → σ)
    (s : FeedRun Stats σ) (msg : List UInt8) : FeedRun Stats σ :=
  let parsed := parser.parseMessage msg (UInt64.ofNat s.seq) (clock s.seq) s.stats
  let s := { s with
    summary := { s.summary with frames := s.summary.frames + 1 }
    seq := s.seq + 1
    stats := parsed.2 }
  match parsed.1 with
  | none => s
  | some ev =>
    { s with
      summary := { s.summary with
        parsed := s.summary.parsed + 1
        crc := updateCrcFromBookEvent s.summary.crc ev }
      out := sink s.out ev }

/-- The loop over a file of messages behind big-endian lengths. -/
def framed (parser : MessageParser Stats) (clock : Nat → UInt64) (sink : σ → BookEvent → σ) :
    Nat → List UInt8 → FeedRun Stats σ → FeedRun Stats σ
  | 0, _, s => s
  | fuel + 1, bytes, s =>
    if bytes.length < 2 then s
    else
      let msgLen := BigEndian.readAt bytes 0 2
      if msgLen = 0 then framed parser clock sink fuel (bytes.drop 2) (s.malformed 1)
      else if bytes.length < 2 + msgLen then s
      else
        framed parser clock sink fuel (bytes.drop (2 + msgLen))
          (s.message parser clock sink ((bytes.drop 2).take msgLen))

/-- What a reader returns also counts what its parser found malformed. -/
def close (parser : MessageParser Stats) (s : FeedRun Stats σ) : FeedRun Stats σ :=
  s.malformed (parser.malformedMessages s.stats).toNat

/-- Everything that a run over messages leaves, these being numbered from `s.seq` on. -/
def after (parser : MessageParser Stats) (clock : Nat → UInt64) (sink : σ → BookEvent → σ)
    (s : FeedRun Stats σ) (msgs : List (List UInt8)) : FeedRun Stats σ :=
  let events := parser.events clock s.seq msgs
  { summary := {
      frames := s.summary.frames + msgs.length
      parsed := s.summary.parsed + events.length
      malformed := s.summary.malformed
      crc := events.foldl updateCrcFromBookEvent s.summary.crc }
    seq := s.seq + msgs.length
    stats := parser.counted clock s.seq s.stats msgs
    out := events.foldl sink s.out }

variable {parser : MessageParser Stats} {clock : Nat → UInt64} {sink : σ → BookEvent → σ}
  {s : FeedRun Stats σ} {bytes body later rest : List UInt8} {bodies : List (List UInt8)}

theorem message_eq (s : FeedRun Stats σ) (msg : List UInt8) :
    s.message parser clock sink msg = s.after parser clock sink [msg] := by
  have blind := parser.blind msg (UInt64.ofNat s.seq) (clock s.seq) s.stats
  simp only [message, after, MessageParser.events, MessageParser.event, MessageParser.counted,
    blind, List.append_nil]
  cases (parser.parseMessage msg (UInt64.ofNat s.seq) (clock s.seq) parser.initial).1 <;> rfl

theorem after_append (s : FeedRun Stats σ) (front back : List (List UInt8)) :
    s.after parser clock sink (front ++ back) =
      (s.after parser clock sink front).after parser clock sink back := by
  simp only [after, parser.events_append, parser.counted_append, List.length_append,
    List.foldl_append, Nat.add_assoc]

theorem foldl_message (s : FeedRun Stats σ) (msgs : List (List UInt8)) :
    msgs.foldl (message parser clock sink) s = s.after parser clock sink msgs := by
  induction msgs generalizing s with
  | nil => rfl
  | cons msg rest ih => rw [List.foldl_cons, ih, message_eq, ← after_append, List.singleton_append]

theorem malformed_malformed (s : FeedRun Stats σ) (m n : Nat) :
    (s.malformed m).malformed n = s.malformed (m + n) := by
  simp only [malformed, Nat.add_assoc]

theorem after_malformed (s : FeedRun Stats σ) (n : Nat) (msgs : List (List UInt8)) :
    (s.malformed n).after parser clock sink msgs =
      (s.after parser clock sink msgs).malformed n := rfl

/-- The messages of a framed file are those behind a length that is not zero. -/
theorem framed_eq (split : Splits 2 bytes bodies rest) {fuel : Nat} (enough : bodies.length < fuel)
    (s : FeedRun Stats σ) :
    framed parser clock sink fuel bytes s =
      (s.after parser clock sink (bodies.filter fun body => body ≠ [])).malformed
        (bodies.count []) := by
  induction bodies generalizing bytes fuel s with
  | nil =>
    obtain ⟨-, cut⟩ := Splits.nil_iff.mp split
    obtain ⟨fuel, rfl⟩ := Nat.exists_eq_add_one.mpr (Nat.zero_lt_of_lt enough)
    rw [framed]
    by_cases short : bytes.length < 2
    · rw [if_pos short]
      rfl
    · have announced := cut.resolve_left short
      have some_bytes : BigEndian.readAt bytes 0 2 ≠ 0 := by omega
      simp only [if_neg short, if_neg some_bytes, if_pos announced]
      rfl
  | cons body bodies ih =>
    obtain ⟨fits, later, rfl, others⟩ := Splits.cons_iff.mp split
    obtain ⟨fuel, rfl⟩ := Nat.exists_eq_add_one.mpr (Nat.zero_lt_of_lt enough)
    have few : bodies.length < fuel := Nat.lt_of_succ_lt_succ enough
    have size : (encode 2 body ++ later).length = 2 + body.length + later.length := by
      rw [List.length_append, length_encode]
    have long : ¬ (encode 2 body ++ later).length < 2 := by omega
    simp only [framed, readAt_encode fits, if_neg long, take_encode]
    by_cases empty : body = []
    · subst empty
      have behind : (encode 2 [] ++ later).drop 2 = later :=
        List.drop_left' (by rw [length_encode]; rfl)
      rw [List.length_nil, if_pos rfl, behind, List.count_cons_self,
        List.filter_cons_of_neg (by simp), ih others few, after_malformed, malformed_malformed,
        Nat.add_comm 1]
    · have some_bytes : body.length ≠ 0 := List.length_eq_zero_iff.not.mpr empty
      rw [if_neg some_bytes, if_neg (by omega), drop_encode, ih others few,
        List.count_cons_of_ne empty, List.filter_cons_of_pos (by simpa using empty),
        message_eq, ← after_append]
      rfl

end FeedRun

/-- A file of framed messages, if it can be opened, read by a parser that starts afresh. -/
def readFramed {Stats σ : Type} (parser : MessageParser Stats) (clock : Nat → UInt64)
    (sink : σ → BookEvent → σ) (venueName path : String) (file : Option (List UInt8)) (out : σ) :
    Except String (FeedRun Stats σ) :=
  match file with
  | none => .error ("failed to open input file for " ++ venueName ++ ": " ++ path)
  | some bytes =>
    .ok ((FeedRun.framed parser clock sink (bytes.length + 1) bytes
      { stats := parser.initial, out := out }).close parser)

/-- Nothing but the summary comes of the events. -/
def runFramedFile {Stats : Type} (parser : MessageParser Stats) (clock : Nat → UInt64)
    (venueName path : String) (file : Option (List UInt8)) : Except String (FeedRun Stats Unit) :=
  readFramed parser clock (fun _ _ => ()) venueName path file ()

end FeedHandler
