import FeedHandler.Proto.CboePitch

/-! Datagram framing. The two binary protocols carry length-prefixed messages behind a
header with the first sequence; Cboe PITCH is lines of text, and the first eight characters
of a line are taken for its sequence. -/
namespace FeedHandler

inductive WireProtocol where
  | nasdaqItch50 | iexDeep | cboePitch
  deriving DecidableEq, Repr

/-- Part of a datagram: where it starts, how long it is, and its sequence. -/
structure FrameSlice where
  offset : Nat
  len : Nat
  sequence : UInt64
  deriving DecidableEq, Repr

def FrameSlice.payload (slice : FrameSlice) (datagram : List UInt8) : List UInt8 :=
  (datagram.drop slice.offset).take slice.len

namespace DatagramFramer

def be16 (datagram : List UInt8) (offset : Nat) : Nat := BigEndian.readAt datagram offset 2

def be64 (datagram : List UInt8) (offset : Nat) : UInt64 :=
  UInt64.ofNat (BigEndian.readAt datagram offset 8)

/-- The loop over length-prefixed messages below `limit`: `remaining` messages of the
header's count are left, the next one is number `i` and starts at `off`. -/
def frameMessages (datagram : List UInt8) (limit : Nat) (firstSeq : UInt64) :
    Nat → Nat → Nat → List FrameSlice
  | 0, _, _ => []
  | remaining + 1, i, off =>
    if off + 2 ≤ limit then
      let mlen := be16 datagram off
      if off + 2 + mlen > limit then []
      else
        ⟨off + 2, mlen, firstSeq + UInt64.ofNat i⟩ ::
          frameMessages datagram limit firstSeq remaining (i + 1) (off + 2 + mlen)
    else []

/-- MoldUDP64: session, first sequence at 10, message count at 18, messages from 20 on. -/
def frameMold (datagram : List UInt8) : List FrameSlice :=
  if datagram.length < 20 then []
  else
    frameMessages datagram datagram.length (be64 datagram 10) (be16 datagram 18) 0 20

/-- IEX-TP: payload length at 8, message count at 10, first sequence at 20, messages from
36 on. -/
def frameIex (datagram : List UInt8) : List FrameSlice :=
  if datagram.length < 36 then []
  else if 36 + be16 datagram 8 > datagram.length then []
  else
    frameMessages datagram (36 + be16 datagram 8) (be64 datagram 20) (be16 datagram 10) 0 36

def lineSequence (line : List UInt8) : UInt64 :=
  if 8 ≤ line.length then CboePitch.parseAsciiU64 (line.take 8) else 0

/-- The line from `start` up to `stop`, unless it is empty. -/
def frameLine (datagram : List UInt8) (start stop : Nat) : List FrameSlice :=
  if stop > start then
    [⟨start, stop - start, lineSequence ((datagram.drop start).take (stop - start))⟩]
  else []

/-- The loop over the characters from `i` on, within a line that starts at `start`. -/
def frameLines (datagram : List UInt8) : List UInt8 → Nat → Nat → List FrameSlice
  | [], i, start => frameLine datagram start i
  | c :: rest, i, start =>
    if c ≠ '\n'.toUInt8 then frameLines datagram rest (i + 1) start
    else frameLine datagram start i ++ frameLines datagram rest (i + 1) (i + 1)

def frame (protocol : WireProtocol) (datagram : List UInt8) : List FrameSlice :=
  if datagram = [] then []
  else
    match protocol with
    | .nasdaqItch50 => frameMold datagram
    | .iexDeep => frameIex datagram
    | .cboePitch => frameLines datagram datagram 0 0

end DatagramFramer
end FeedHandler
