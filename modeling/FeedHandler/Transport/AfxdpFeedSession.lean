import FeedHandler.Lib.Run
import FeedHandler.Transport.UdpPayload
import FeedHandler.Wire.FeedSession

/-! A feed session over frames from the network card. Frames come in while it polls; a poll
ends at an empty ring and at a frame without a payload. -/
namespace FeedHandler

structure AfxdpReceiverStats where
  framesReceived : UInt64 := 0
  bytesReceived : UInt64 := 0
  udpPayloads : UInt64 := 0
  parseSkips : UInt64 := 0
  deriving DecidableEq, Repr

/-- A frame in the ring, and what the clock reads once it is taken. -/
abbrev RingFrame := List UInt8 × UInt64

structure AfxdpReceiver where
  opened : Bool := false
  rx : List RingFrame := []
  stats : AfxdpReceiverStats := {}

namespace AfxdpReceiver

/-- A frame that has been taken off the ring is counted. -/
def take (r : AfxdpReceiver) (frame : List UInt8) (rest : List RingFrame) : AfxdpReceiver :=
  { r with
    rx := rest
    stats := { r.stats with
      framesReceived := r.stats.framesReceived + 1
      bytesReceived := r.stats.bytesReceived + UInt64.ofNat frame.length } }

def skip (r : AfxdpReceiver) : AfxdpReceiver :=
  { r with stats := { r.stats with parseSkips := r.stats.parseSkips + 1 } }

def pass (r : AfxdpReceiver) : AfxdpReceiver :=
  { r with stats := { r.stats with udpPayloads := r.stats.udpPayloads + 1 } }

/-- `AfxdpReceiver::recv`: what is copied to the buffer with the time, or nothing for -1. -/
def recv (r : AfxdpReceiver) (buflen : Nat) : Option (List UInt8 × UInt64) × AfxdpReceiver :=
  if r.opened = false ∨ buflen = 0 then (none, r)
  else
    match r.rx with
    | [] => (none, r)
    | (frame, ingestTsNs) :: rest =>
      let extracted := extractUdpPayload frame
      let taken := r.take frame rest
      match extracted.bytes frame with
      | none => (none, taken.skip)
      | some payload =>
        if extracted.length = 0 then (none, taken.skip)
        else (some (payload.take (min buflen extracted.length), ingestTsNs), taken.pass)

end AfxdpReceiver

/-- The session counts what a session on a socket counts. -/
structure AfxdpFeedSession where
  receiver : AfxdpReceiver := {}
  parseStats : ParseStats := {}
  stats : FeedSessionStats := {}

namespace AfxdpFeedSession

def recvBufBytes : Nat := 64 * 1024

/-- A frame was parsed into nothing. -/
def fail (s : AfxdpFeedSession) (parseStats : ParseStats) : AfxdpFeedSession :=
  { s with
    parseStats := parseStats
    stats := { s.stats with
      framesParsed := s.stats.framesParsed + 1
      parseFailures := s.stats.parseFailures + 1 } }

/-- A frame was parsed into an event that the sink has taken. -/
def pass (s : AfxdpFeedSession) (parseStats : ParseStats) : AfxdpFeedSession :=
  { s with
    parseStats := parseStats
    stats := { s.stats with
      framesParsed := s.stats.framesParsed + 1
      sinkCallbacksFired := s.stats.sinkCallbacksFired + 1 } }

/-- The callback on each frame of a datagram; returns what the sink is called with. -/
def deliver (datagram : List UInt8) (ingestTsNs : UInt64) :
    List FrameSlice → AfxdpFeedSession → AfxdpFeedSession × List BookEvent
  | [], s => (s, [])
  | slice :: rest, s =>
    let parsed := Itch50.parseMessage (slice.payload datagram) slice.sequence ingestTsNs s.parseStats
    match parsed.1 with
    | none => deliver datagram ingestTsNs rest (s.fail parsed.2)
    | some ev =>
      let later := deliver datagram ingestTsNs rest (s.pass parsed.2)
      (later.1, ev :: later.2)

/-- A datagram that `recv` has returned. -/
def receive (s : AfxdpFeedSession) (datagram : List UInt8) (ingestTsNs : UInt64) :
    AfxdpFeedSession × List BookEvent :=
  deliver datagram ingestTsNs (DatagramFramer.frame .nasdaqItch50 datagram)
    { s with stats := { s.stats with
        datagramsReceived := s.stats.datagramsReceived + 1
        bytesReceived := s.stats.bytesReceived + UInt64.ofNat datagram.length } }

/-- The loop of `poll`; each turn but the last takes a frame off the ring. -/
def pollLoop : Nat → AfxdpFeedSession → AfxdpFeedSession × List BookEvent
  | 0, s => (s, [])
  | fuel + 1, s =>
    let received := s.receiver.recv recvBufBytes
    let next := { s with receiver := received.2 }
    match received.1 with
    | none => (next, [])
    | some (datagram, ingestTsNs) =>
      if datagram.length = 0 then (next, [])
      else
        let delivered := next.receive datagram ingestTsNs
        let later := pollLoop fuel delivered.1
        (later.1, delivered.2 ++ later.2)

def poll (s : AfxdpFeedSession) : AfxdpFeedSession × List BookEvent :=
  pollLoop (s.receiver.rx.length + 1) s

/-- What can happen between two polls, and a poll. -/
inductive Action where
  | arrive (frame : RingFrame)
  | poll

def Action.frame : Action → Option RingFrame
  | .arrive frame => some frame
  | .poll => none

/-- A session and what its sink has been called with. -/
abbrev Polled := AfxdpFeedSession × List BookEvent

def step (ran : Polled) : Action → Polled
  | .arrive frame =>
    ({ ran.1 with receiver := { ran.1.receiver with rx := ran.1.receiver.rx ++ [frame] } }, ran.2)
  | .poll => (ran.1.poll.1, ran.2 ++ ran.1.poll.2)

end AfxdpFeedSession

namespace FeedSession

/-- Polls may end between any two datagrams. -/
theorem poll_append {first second : List (List UInt8 × UInt64)}
    (filled : ∀ received ∈ first, received.1 ≠ []) (s : FeedSession) :
    poll (first ++ second) s =
      ((poll second (poll first s).1).1, (poll first s).2 ++ (poll second (poll first s).1).2) := by
  induction first generalizing s with
  | nil => rfl
  | cons received rest ih =>
    have here := filled received (by simp)
    have later := ih fun other member => filled other (by simp [member])
    simp only [List.cons_append, poll, if_neg here, later, List.append_assoc]

end FeedSession

namespace AfxdpFeedSession

/-- The datagram of a frame that is not skipped. -/
def datagram? (taken : RingFrame) : Option (List UInt8 × UInt64) :=
  (((extractUdpPayload taken.1).bytes taken.1).filter fun payload => !payload.isEmpty).map
    fun payload => (payload, taken.2)

/-- The session on a socket with the same parser and counters. -/
def onSocket (side : FeedSide) (s : AfxdpFeedSession) : FeedSession :=
  { protocol := .nasdaqItch50, side := side, parser := .nasdaq s.parseStats, stats := s.stats }

theorem datagram?_filled {taken : RingFrame} {received : List UInt8 × UInt64}
    (found : datagram? taken = some received) : received.1 ≠ [] := by
  obtain ⟨payload, kept, rfl⟩ := Option.map_eq_some_iff.mp found
  have filled := (Option.filter_eq_some_iff.mp kept).2
  intro empty
  simp only at empty
  simp [empty] at filled

/-- A payload is never longer than the buffer. -/
theorem payload_fits {frame payload : List UInt8}
    (found : (extractUdpPayload frame).bytes frame = some payload) :
    (extractUdpPayload frame).length = payload.length ∧ payload.length ≤ recvBufBytes := by
  have start : (extractUdpPayload frame).start ≠ none := by
    intro none
    simp [ExtractedPayload.bytes, none] at found
  obtain ⟨f, rfl⟩ := exists_udpFrame start
  obtain rfl := Option.some.inj (f.extract_bytes.symm.trans found)
  have small := f.payload_length
  rw [f.extract]
  exact ⟨rfl, by simp only [recvBufBytes]; omega⟩

/-- A frame without a payload ends the poll. -/
theorem recv_skipped {r : AfxdpReceiver} {taken : RingFrame} {rest : List RingFrame}
    (opened : r.opened = true) (ring : r.rx = taken :: rest) (skipped : datagram? taken = none) :
    r.recv recvBufBytes = (none, (r.take taken.1 rest).skip) := by
  have ready : ¬ (r.opened = false ∨ recvBufBytes = 0) := by simp [opened, recvBufBytes]
  rw [AfxdpReceiver.recv, if_neg ready, ring]
  cases found : (extractUdpPayload taken.1).bytes taken.1 with
  | none => simp only [found]
  | some payload =>
    have empty : payload = [] := by
      cases payload with
      | nil => rfl
      | cons => simp [datagram?, found, Option.filter] at skipped
    have length := (payload_fits found).1
    rw [empty] at length
    simp only [found, length, List.length_nil, if_true]

theorem recv_datagram {r : AfxdpReceiver} {taken : RingFrame} {rest : List RingFrame}
    {received : List UInt8 × UInt64} (opened : r.opened = true) (ring : r.rx = taken :: rest)
    (found : datagram? taken = some received) :
    r.recv recvBufBytes = (some received, (r.take taken.1 rest).pass) := by
  have ready : ¬ (r.opened = false ∨ recvBufBytes = 0) := by simp [opened, recvBufBytes]
  obtain ⟨payload, kept, rfl⟩ := Option.map_eq_some_iff.mp found
  obtain ⟨read, filled⟩ := Option.filter_eq_some_iff.mp kept
  obtain ⟨length, fits⟩ := payload_fits read
  have some_bytes : ¬ payload.length = 0 := by
    intro empty
    simp [List.length_eq_zero_iff.mp empty] at filled
  rw [AfxdpReceiver.recv, if_neg ready, ring]
  simp only [read, length, if_neg some_bytes, Nat.min_eq_right fits, List.take_length]

/-- The sink is called with what a session on a socket calls it with. -/
theorem deliver_onSocket (side : FeedSide) (datagram : List UInt8) (ingestTsNs : UInt64)
    (slices : List FrameSlice) (s : AfxdpFeedSession) :
    FeedSession.deliver datagram ingestTsNs slices (s.onSocket side) =
        ((deliver datagram ingestTsNs slices s).1.onSocket side,
          (deliver datagram ingestTsNs slices s).2) ∧
      (deliver datagram ingestTsNs slices s).1.receiver = s.receiver := by
  induction slices generalizing s with
  | nil => exact ⟨rfl, rfl⟩
  | cons slice rest ih =>
    have failed := ih (s.fail (Itch50.parseMessage (slice.payload datagram) slice.sequence
      ingestTsNs s.parseStats).2)
    have passed := ih (s.pass (Itch50.parseMessage (slice.payload datagram) slice.sequence
      ingestTsNs s.parseStats).2)
    simp only [deliver, FeedSession.deliver, FeedSession.parseFrame, onSocket]
    cases parsed : (Itch50.parseMessage (slice.payload datagram) slice.sequence ingestTsNs
      s.parseStats).1 with
    | none => exact failed
    | some ev => exact ⟨congrArg (fun later => (later.1, ev :: later.2)) passed.1, passed.2⟩

theorem receive_onSocket (side : FeedSide) (s : AfxdpFeedSession) (datagram : List UInt8)
    (ingestTsNs : UInt64) :
    (s.onSocket side).receive datagram ingestTsNs =
        ((s.receive datagram ingestTsNs).1.onSocket side, (s.receive datagram ingestTsNs).2) ∧
      (s.receive datagram ingestTsNs).1.receiver = s.receiver :=
  deliver_onSocket side datagram ingestTsNs (DatagramFramer.frame .nasdaqItch50 datagram)
    { s with stats := { s.stats with
        datagramsReceived := s.stats.datagramsReceived + 1
        bytesReceived := s.stats.bytesReceived + UInt64.ofNat datagram.length } }

/-- The session is where one on a socket is that has received the datagrams of these frames,
and the frames are accounted for. -/
structure Follows (side : FeedSide) (consumed : List RingFrame) (ran : Polled) : Prop where
  opened : ran.1.receiver.opened = true
  session : FeedSession.poll (consumed.filterMap datagram?) (.create .nasdaqItch50 side) =
    (ran.1.onSocket side, ran.2)
  frames : ran.1.receiver.stats.framesReceived = UInt64.ofNat consumed.length
  payloads : ran.1.receiver.stats.udpPayloads = UInt64.ofNat (consumed.filterMap datagram?).length
  skips : ran.1.receiver.stats.parseSkips =
    UInt64.ofNat (consumed.countP fun taken => (datagram? taken).isNone)

variable {side : FeedSide} {consumed rest : List RingFrame} {ran : Polled} {s : AfxdpFeedSession}
  {delivered : List BookEvent} {taken : RingFrame}

theorem Follows.skip (follows : Follows side consumed (s, delivered))
    (skipped : datagram? taken = none) :
    Follows side (consumed ++ [taken])
      ({ s with receiver := (s.receiver.take taken.1 rest).skip }, delivered) where
  opened := follows.opened
  session := by
    rw [List.filterMap_append, List.filterMap_cons_none skipped, List.filterMap_nil,
      List.append_nil]
    exact follows.session
  frames := by
    rw [List.length_append, List.length_singleton, UInt64.ofNat_add]
    exact congrArg (· + 1) follows.frames
  payloads := by
    rw [List.filterMap_append, List.filterMap_cons_none skipped, List.filterMap_nil,
      List.append_nil]
    exact follows.payloads
  skips := by
    have one : [taken].countP (fun taken => (datagram? taken).isNone) = 1 := by simp [skipped]
    rw [List.countP_append, one, UInt64.ofNat_add]
    exact congrArg (· + 1) follows.skips

theorem Follows.receive {received : List UInt8 × UInt64}
    (follows : Follows side consumed (s, delivered)) (found : datagram? taken = some received)
    (rest : List RingFrame) :
    let next := { s with receiver := (s.receiver.take taken.1 rest).pass }
    Follows side (consumed ++ [taken])
      ((next.receive received.1 received.2).1,
        delivered ++ (next.receive received.1 received.2).2) := by
  intro next
  obtain ⟨onward, kept⟩ := next.receive_onSocket side received.1 received.2
  have here := datagram?_filled found
  have filled : ∀ other ∈ consumed.filterMap datagram?, other.1 ≠ [] := by
    intro other member
    obtain ⟨frame, _, read⟩ := List.mem_filterMap.mp member
    exact datagram?_filled read
  have one : [taken].filterMap datagram? = [received] := by
    rw [List.filterMap_cons_some found, List.filterMap_nil]
  refine ⟨?_, ?_, ?_, ?_, ?_⟩
  · rw [kept]
    exact follows.opened
  · have alone : FeedSession.poll [received] (s.onSocket side) =
        ((next.receive received.1 received.2).1.onSocket side,
          (next.receive received.1 received.2).2) := by
      have same : next.onSocket side = s.onSocket side := rfl
      rw [← same]
      simp only [FeedSession.poll, if_neg here, onward, List.append_nil]
    rw [List.filterMap_append, one, FeedSession.poll_append filled, follows.session, alone]
  · rw [kept, List.length_append, List.length_singleton, UInt64.ofNat_add]
    exact congrArg (· + 1) follows.frames
  · rw [kept, List.filterMap_append, one, List.length_append, List.length_singleton,
      UInt64.ofNat_add]
    exact congrArg (· + 1) follows.payloads
  · have none : [taken].countP (fun taken => (datagram? taken).isNone) = 0 := by simp [found]
    rw [kept, List.countP_append, none, Nat.add_zero]
    exact follows.skips

/-- A poll takes the frames up to the first one that is skipped, or all of them. -/
theorem pollLoop_follows {fuel : Nat} (follows : Follows side consumed (s, delivered))
    (enough : s.receiver.rx.length < fuel) :
    ∃ polled, s.receiver.rx = polled ++ (pollLoop fuel s).1.receiver.rx ∧
      Follows side (consumed ++ polled)
        ((pollLoop fuel s).1, delivered ++ (pollLoop fuel s).2) ∧
      (pollLoop fuel s).1.receiver.rx =
        (s.receiver.rx.dropWhile fun taken => (datagram? taken).isSome).tail := by
  induction fuel generalizing s consumed delivered with
  | zero => exact absurd enough (Nat.not_lt_zero _)
  | succ fuel ih =>
    rw [pollLoop]
    cases ring : s.receiver.rx with
    | nil =>
      have idle : s.receiver.recv recvBufBytes = (none, s.receiver) := by
        simp [AfxdpReceiver.recv, ring]
      simp only [idle]
      refine ⟨[], by rw [ring]; rfl, ?_, by rw [ring]; rfl⟩
      simpa using follows
    | cons taken rest =>
      cases found : datagram? taken with
      | none =>
        rw [recv_skipped follows.opened ring found]
        refine ⟨[taken], rfl, ?_, ?_⟩
        · simpa using follows.skip found
        · simp [found, AfxdpReceiver.take, AfxdpReceiver.skip]
      | some received =>
        rw [recv_datagram follows.opened ring found]
        have filled : ¬ received.1.length = 0 :=
          fun empty => datagram?_filled found (List.length_eq_zero_iff.mp empty)
        have next := follows.receive found rest
        simp only at next
        have kept := ({ s with receiver := (s.receiver.take taken.1 rest).pass } :
          AfxdpFeedSession).receive_onSocket side received.1 received.2 |>.2
        have left : (AfxdpFeedSession.receive { s with
            receiver := (s.receiver.take taken.1 rest).pass } received.1 received.2).1.receiver.rx =
              rest := by rw [kept]; rfl
        obtain ⟨polled, split, later, rests⟩ := ih next (by
          rw [left]
          rw [ring, List.length_cons] at enough
          omega)
        rw [left] at split rests
        simp only [if_neg filled]
        refine ⟨taken :: polled, by rw [List.cons_append, ← split], ?_, ?_⟩
        · simpa using later
        · rw [List.dropWhile_cons_of_pos (by rw [found]; rfl)]
          exact rests

theorem poll_follows (follows : Follows side consumed ran) :
    ∃ polled, ran.1.receiver.rx = polled ++ (step ran .poll).1.receiver.rx ∧
      Follows side (consumed ++ polled) (step ran .poll) ∧
      (step ran .poll).1.receiver.rx =
        (ran.1.receiver.rx.dropWhile fun taken => (datagram? taken).isSome).tail :=
  pollLoop_follows follows (Nat.lt_succ_self _)

/-- The frames that have come in are those that are accounted for and those in the ring. -/
def Accounted (side : FeedSide) (arrived : List RingFrame) (ran : Polled) : Prop :=
  ∃ consumed, arrived = consumed ++ ran.1.receiver.rx ∧ Follows side consumed ran

theorem Accounted.step {arrived : List RingFrame} (accounted : Accounted side arrived ran)
    (action : Action) :
    Accounted side (arrived ++ action.frame.toList) (step ran action) := by
  obtain ⟨consumed, rfl, follows⟩ := accounted
  cases action with
  | arrive frame =>
    refine ⟨consumed, by simp [AfxdpFeedSession.step, Action.frame], ?_⟩
    exact ⟨follows.opened, follows.session, follows.frames, follows.payloads, follows.skips⟩
  | poll =>
    obtain ⟨polled, split, later, _⟩ := poll_follows follows
    exact ⟨consumed ++ polled, by simp [Action.frame, split], later⟩

/-- The frames in the ring that a poll will stop at. -/
def stops (ring : List RingFrame) : Nat := ring.countP fun taken => (datagram? taken).isNone

theorem stops_poll (ring : List RingFrame) (n : Nat) (few : stops ring ≤ n + 1) :
    stops (ring.dropWhile fun taken => (datagram? taken).isSome).tail ≤ n := by
  induction ring with
  | nil => exact Nat.zero_le n
  | cons taken rest ih =>
    simp only [stops, List.countP_cons] at few ih ⊢
    cases found : datagram? taken with
    | none =>
      rw [List.dropWhile_cons_of_neg (by simp [found]), List.tail_cons]
      simp only [found, Option.isNone_none, if_true] at few
      omega
    | some received =>
      rw [List.dropWhile_cons_of_pos (by simp [found])]
      apply ih
      simpa [found] using few

theorem rx_poll_of_stops {ring : List RingFrame} (none : stops ring = 0) :
    (ring.dropWhile fun taken => (datagram? taken).isSome).tail = [] := by
  rw [List.dropWhile_eq_nil_iff.mpr, List.tail_nil]
  intro taken member
  have some_datagram := List.countP_eq_zero.mp none taken member
  simpa [Option.isSome_iff_ne_none] using some_datagram

/-- One poll more than there are frames to stop at empties the ring. -/
theorem polls_drain {n : Nat} (follows : Follows side consumed ran)
    (few : stops ran.1.receiver.rx ≤ n) :
    ((List.replicate (n + 1) Action.poll).foldl step ran).1.receiver.rx = [] := by
  induction n generalizing ran consumed with
  | zero =>
    obtain ⟨_, _, _, left⟩ := poll_follows follows
    exact left.trans (rx_poll_of_stops (Nat.le_zero.mp few))
  | succ n ih =>
    obtain ⟨polled, _, later, left⟩ := poll_follows follows
    rw [List.replicate_succ, List.foldl_cons]
    exact ih later (left ▸ stops_poll _ n few)

/-- In whatever order frames come in and the session polls, its sink has been called with what
the sink of a session on a socket is called with for the payloads of the frames taken so far,
the two have counted the same, and every frame that came in is still in the ring, a datagram
or a skipped frame. One poll more than there are frames to skip takes all that came in. -/
theorem agrees_with_socket (side : FeedSide) (actions : List Action) :
    let ran := actions.foldl step ({ receiver := { opened := true } }, [])
    let arrived := actions.filterMap Action.frame
    Accounted side arrived ran ∧
      Follows side arrived
        ((List.replicate (stops ran.1.receiver.rx + 1) Action.poll).foldl step ran) := by
  intro ran arrived
  have run : ∀ past : List Action, ∀ ran : Polled,
      Accounted side (past.filterMap Action.frame) ran → ∀ actions : List Action,
        Accounted side ((past ++ actions).filterMap Action.frame) (actions.foldl step ran) := by
    intro past ran accounted actions
    apply Run.Along.history (P := fun past ran => Accounted side (past.filterMap Action.frame) ran)
      (fun past ran action held _ => ?_) past
      (Run.along_of_forall (Q := fun _ => True) ran actions (fun _ _ => trivial)) accounted
    have next := held.step action
    rw [List.filterMap_append]
    cases action <;> exact next
  have start : Accounted side [] ({ receiver := { opened := true } }, []) :=
    ⟨[], rfl, rfl, rfl, rfl, rfl, rfl⟩
  have accounted : Accounted side arrived ran := run [] _ start actions
  refine ⟨accounted, ?_⟩
  obtain ⟨consumed, split, follows⟩ := accounted
  have empty := polls_drain follows le_rfl
  have polls := run actions ran ⟨consumed, split, follows⟩
    (List.replicate (stops ran.1.receiver.rx + 1) Action.poll)
  have none : (List.replicate (stops ran.1.receiver.rx + 1) Action.poll).filterMap Action.frame =
      [] := List.filterMap_eq_nil_iff.mpr fun action member => by
    rw [List.eq_of_mem_replicate member]
    rfl
  obtain ⟨all, whole, later⟩ := polls
  rw [List.filterMap_append, none, List.append_nil, empty, List.append_nil] at whole
  have same : arrived = all := whole
  rw [same]
  exact later

end AfxdpFeedSession

end FeedHandler
