import FeedHandler.Phase2.AbArbiter
import FeedHandler.Proto.IexDeep
import FeedHandler.Wire.Framing

/-! A feed session: what a receive call returns is framed, parsed and handed to the sink
with the side of the session. -/
namespace FeedHandler

/-- The parser of a session with its counters. -/
inductive SessionParser where
  | nasdaq (stats : ParseStats)
  | iex (stats : IexDeep.ParseStats)
  | cboe (stats : ParseStats)

def SessionParser.create : WireProtocol → SessionParser
  | .nasdaqItch50 => .nasdaq {}
  | .iexDeep => .iex {}
  | .cboePitch => .cboe {}

def SessionParser.venue : SessionParser → Venue
  | .nasdaq _ => .nasdaq
  | .iex _ => .iex
  | .cboe _ => .cboe

structure FeedSessionStats where
  datagramsReceived : UInt64 := 0
  bytesReceived : UInt64 := 0
  framesParsed : UInt64 := 0
  parseFailures : UInt64 := 0
  sinkCallbacksFired : UInt64 := 0

structure FeedSession where
  protocol : WireProtocol
  side : FeedSide
  parser : SessionParser
  stats : FeedSessionStats := {}

namespace FeedSession

def create (protocol : WireProtocol) (side : FeedSide) : FeedSession :=
  { protocol := protocol, side := side, parser := .create protocol }

def parseFrame (parser : SessionParser) (payload : List UInt8) (seq ingestTsNs : UInt64) :
    Option BookEvent × SessionParser :=
  match parser with
  | .nasdaq stats =>
    let parsed := Itch50.parseMessage payload seq ingestTsNs stats
    (parsed.1, .nasdaq parsed.2)
  | .iex stats =>
    let parsed := IexDeep.parseMessage payload seq ingestTsNs stats
    (parsed.1, .iex parsed.2)
  | .cboe stats =>
    let parsed := CboePitch.parseMessage payload seq ingestTsNs stats
    (parsed.1, .cboe parsed.2)

/-- A frame was parsed into nothing. -/
def fail (s : FeedSession) (parser : SessionParser) : FeedSession :=
  { s with
    parser := parser
    stats := { s.stats with
      framesParsed := s.stats.framesParsed + 1
      parseFailures := s.stats.parseFailures + 1 } }

/-- A frame was parsed into an event that the sink has taken. -/
def pass (s : FeedSession) (parser : SessionParser) : FeedSession :=
  { s with
    parser := parser
    stats := { s.stats with
      framesParsed := s.stats.framesParsed + 1
      sinkCallbacksFired := s.stats.sinkCallbacksFired + 1 } }

/-- The callback on each frame of a datagram; returns what the sink is called with. -/
def deliver (datagram : List UInt8) (ingestTsNs : UInt64) :
    List FrameSlice → FeedSession → FeedSession × List BookEvent
  | [], s => (s, [])
  | slice :: rest, s =>
    let parsed := parseFrame s.parser (slice.payload datagram) slice.sequence ingestTsNs
    match parsed.1 with
    | none => deliver datagram ingestTsNs rest (s.fail parsed.2)
    | some ev =>
      let later := deliver datagram ingestTsNs rest (s.pass parsed.2)
      (later.1, ev :: later.2)

def receive (s : FeedSession) (datagram : List UInt8) (ingestTsNs : UInt64) :
    FeedSession × List BookEvent :=
  deliver datagram ingestTsNs (DatagramFramer.frame s.protocol datagram)
    { s with stats := { s.stats with
        datagramsReceived := s.stats.datagramsReceived + 1
        bytesReceived := s.stats.bytesReceived + UInt64.ofNat datagram.length } }

/-- What the receive calls return until the first one without data; an empty datagram ends
the loop as well. -/
def poll : List (List UInt8 × UInt64) → FeedSession → FeedSession × List BookEvent
  | [], s => (s, [])
  | (datagram, ingestTsNs) :: rest, s =>
    if datagram = [] then (s, [])
    else
      let received := s.receive datagram ingestTsNs
      let later := poll rest received.1
      (later.1, received.2 ++ later.2)

variable {parser : SessionParser} {payload datagram : List UInt8} {seq ingestTsNs : UInt64}
  {ev : BookEvent}

theorem parseFrame_venue : (parseFrame parser payload seq ingestTsNs).2.venue = parser.venue := by
  cases parser <;> rfl

theorem parseFrame_stamp (parsed : (parseFrame parser payload seq ingestTsNs).1 = some ev) :
    ev.venue = parser.venue ∧ ev.sequence = seq := by
  cases parser with
  | nasdaq => exact Itch50.parseMessage_stamp parsed
  | iex => exact IexDeep.parseMessage_stamp parsed
  | cboe => exact CboePitch.parseMessage_stamp parsed

/-- The sink sees events of one venue, with the sequences of the frames that parse. -/
theorem deliver_stamps (datagram : List UInt8) (ingestTsNs : UInt64) (slices : List FrameSlice) (s : FeedSession) :
    ((deliver datagram ingestTsNs slices s).2.map BookEvent.sequence).Sublist
        (slices.map FrameSlice.sequence) ∧
      ∀ ev ∈ (deliver datagram ingestTsNs slices s).2, ev.venue = s.parser.venue := by
  induction slices generalizing s with
  | nil => simp [deliver]
  | cons slice rest ih =>
    have venue : (parseFrame s.parser (slice.payload datagram) slice.sequence ingestTsNs).2.venue =
      s.parser.venue := parseFrame_venue
    simp only [deliver]
    cases parsed : (parseFrame s.parser (slice.payload datagram) slice.sequence ingestTsNs).1 with
    | none =>
      obtain ⟨sublist, venues⟩ := ih (s.fail
        (parseFrame s.parser (slice.payload datagram) slice.sequence ingestTsNs).2)
      exact ⟨sublist.cons slice.sequence, fun ev member => (venues ev member).trans venue⟩
    | some head =>
      obtain ⟨here, sequence⟩ := parseFrame_stamp parsed
      obtain ⟨sublist, venues⟩ := ih (s.pass
        (parseFrame s.parser (slice.payload datagram) slice.sequence ingestTsNs).2)
      constructor
      · rw [List.map_cons, List.map_cons, sequence]
        exact sublist.cons_cons slice.sequence
      · intro ev member
        rcases List.mem_cons.mp member with rfl | later
        · exact here
        · exact (venues ev later).trans venue

end FeedSession
end FeedHandler
