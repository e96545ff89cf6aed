import FeedHandler.Wire.FramingExact

/-! Packing a file of length-prefixed ITCH messages into MoldUDP64 datagrams. The packer
fills a datagram with leading messages of its input until a message does not fit, the
number of messages is reached or the input has no whole message left; the framer, which is
written elsewhere, takes the datagram apart again. -/
namespace FeedHandler

open LengthPrefixed
open BigEndian (toBytes)

structure ItchMoldUdpFramer where
  session : List UInt8 := "SESSION0001".toList.map Char.toUInt8
  nextSeq : UInt64 := 1

/-- What `pack_datagram` returns and stores. -/
structure Packed where
  framer : ItchMoldUdpFramer
  datagram : List UInt8 := []
  consumed : Nat := 0

namespace ItchMoldUdpFramer

def resetSequence (f : ItchMoldUdpFramer) (seq : UInt64) : ItchMoldUdpFramer :=
  { f with nextSeq := seq }

/-- The loop variables of `pack_datagram`. -/
structure Packing where
  out : List UInt8
  msgCount : UInt16 := 0
  off : Nat := 0

/-- The loop of `pack_datagram`. Every turn takes bytes of the input, so its length is fuel
enough. The size is estimated two bytes too large. -/
def packLoop (input : List UInt8) (maxMessages maxBytes : Nat) : Nat → Packing → Packing
  | 0, p => p
  | fuel + 1, p =>
    if p.off + 2 ≤ input.length ∧ p.msgCount.toNat < maxMessages then
      let msgLen := DatagramFramer.be16 input p.off
      if msgLen = 0 ∨ p.off + 2 + msgLen > input.length then p
      else if 20 + 2 + (p.out.length - 20) + 2 + msgLen > maxBytes then p
      else
        packLoop input maxMessages maxBytes fuel
          { out := p.out ++ (toBytes 2 msgLen ++ (input.drop (p.off + 2)).take msgLen)
            msgCount := p.msgCount + 1
            off := p.off + 2 + msgLen }
    else p

/-- The session name, cut or padded with blanks to ten characters. -/
def sessionField (f : ItchMoldUdpFramer) : List UInt8 :=
  f.session.take 10 ++ List.replicate (10 - (f.session.take 10).length) ' '.toUInt8

/-- The header with a count that is written last. -/
def header (f : ItchMoldUdpFramer) : List UInt8 :=
  f.sessionField ++ (toBytes 8 f.nextSeq.toNat ++ [0, 0])

def packDatagram (f : ItchMoldUdpFramer) (input : List UInt8) (maxMessages maxBytes : Nat) :
    Packed :=
  if input.length < 2 then { framer := f }
  else
    let p := packLoop input maxMessages maxBytes input.length { out := f.header }
    if p.msgCount = 0 then { framer := f }
    else
      { framer := { f with nextSeq := f.nextSeq + p.msgCount.toUInt64 }
        datagram := p.out.take 18 ++ (toBytes 2 p.msgCount.toNat ++ p.out.drop 20)
        consumed := p.off }

/-- The bytes of messages behind their lengths. -/
def fileOf (messages : List (List UInt8)) : List UInt8 := messages.flatMap (encode 2)

/-- How many leading messages the limits let into a datagram that holds `count` messages
and `size` bytes. -/
def fitCount (maxMessages maxBytes : Nat) : Nat → Nat → List (List UInt8) → Nat
  | _, _, [] => 0
  | count, size, message :: rest =>
    if count < maxMessages ∧ size + 4 + message.length ≤ maxBytes then
      1 + fitCount maxMessages maxBytes (count + 1) (size + 2 + message.length) rest
    else 0

/-- The messages of the next datagram. -/
def nextMessages (maxMessages maxBytes : Nat) (messages : List (List UInt8)) :
    List (List UInt8) := messages.take (fitCount maxMessages maxBytes 0 20 messages)

/-- The datagram of some messages. -/
def moldDatagram (f : ItchMoldUdpFramer) (messages : List (List UInt8)) : List UInt8 :=
  f.sessionField ++ (toBytes 8 f.nextSeq.toNat ++ (toBytes 2 messages.length ++ fileOf messages))

section Packing

variable {maxMessages maxBytes : Nat} {messages bodies : List (List UInt8)}
  {input rest : List UInt8}

theorem fileOf_cons (message : List UInt8) (rest : List (List UInt8)) :
    fileOf (message :: rest) = encode 2 message ++ fileOf rest := List.flatMap_cons

theorem fileOf_append (xs ys : List (List UInt8)) : fileOf (xs ++ ys) = fileOf xs ++ fileOf ys :=
  List.flatMap_append

theorem fitCount_le (count size : Nat) :
    fitCount maxMessages maxBytes count size messages ≤ messages.length := by
  induction messages generalizing count size with
  | nil => simp [fitCount]
  | cons message rest ih =>
    rw [fitCount]
    split
    · have further := ih (count + 1) (size + 2 + message.length)
      rw [List.length_cons]
      omega
    · exact Nat.zero_le _

theorem fitCount_count (count size : Nat) (below : count ≤ maxMessages) :
    count + fitCount maxMessages maxBytes count size messages ≤ maxMessages := by
  induction messages generalizing count size with
  | nil => simpa [fitCount] using below
  | cons message rest ih =>
    rw [fitCount]
    split
    · next fits =>
      have further := ih (count + 1) (size + 2 + message.length) fits.1
      omega
    · simpa using below

theorem fitCount_size (count size : Nat) (below : size ≤ maxBytes) :
    size + (fileOf (messages.take (fitCount maxMessages maxBytes count size messages))).length ≤
      maxBytes := by
  induction messages generalizing count size with
  | nil => simpa [fitCount, fileOf] using below
  | cons message rest ih =>
    rw [fitCount]
    split
    · next fits =>
      have further := ih (count + 1) (size + 2 + message.length) (by omega)
      rw [Nat.add_comm 1, List.take_succ_cons, fileOf_cons, List.length_append, length_encode]
      omega
    · simpa [fileOf] using below

/-- The loop variables after some messages have been taken. -/
def Packing.after (p : Packing) (messages : List (List UInt8)) : Packing where
  out := p.out ++ fileOf messages
  msgCount := p.msgCount + UInt16.ofNat messages.length
  off := p.off + (fileOf messages).length

theorem Packing.after_nil (p : Packing) : p.after [] = p := by
  simp [after, fileOf]

theorem Packing.after_cons (p : Packing) (message : List UInt8) (rest : List (List UInt8)) :
    (p.after [message]).after rest = p.after (message :: rest) := by
  have count : p.msgCount + UInt16.ofNat 1 + UInt16.ofNat rest.length =
      p.msgCount + UInt16.ofNat (rest.length + 1) := by
    rw [UInt16.ofNat_add, UInt16.add_assoc, UInt16.add_comm (UInt16.ofNat 1)]
  simp only [after, fileOf, List.flatMap_cons, List.flatMap_nil, List.append_nil,
    List.append_assoc, List.length_append, List.length_cons, List.length_nil, Nat.zero_add,
    Nat.add_assoc, count]

theorem Packing.length_after (p : Packing) (message : List UInt8) :
    (p.after [message]).out.length = p.out.length + 2 + message.length := by
  simp only [after, fileOf, List.flatMap_cons, List.flatMap_nil, List.append_nil,
    List.length_append, length_encode]
  omega

/-- The loop takes the leading messages that the limits let in. -/
theorem packLoop_eq {fuel : Nat} {p : Packing} (split : Splits 2 (input.drop p.off) bodies rest)
    (nonempty : ∀ body ∈ bodies, body ≠ []) (enough : bodies.length < fuel)
    (header : 20 ≤ p.out.length) (few : maxMessages < 2 ^ 16) :
    packLoop input maxMessages maxBytes fuel p =
      p.after (bodies.take
        (fitCount maxMessages maxBytes p.msgCount.toNat p.out.length bodies)) := by
  induction fuel generalizing p bodies with
  | zero => omega
  | succ fuel ih =>
    have size : (input.drop p.off).length = input.length - p.off := List.length_drop
    have length_at : DatagramFramer.be16 input p.off =
        BigEndian.readAt (input.drop p.off) 0 2 := by
      rw [DatagramFramer.be16, BigEndian.readAt, BigEndian.readAt, List.drop_zero]
    simp only [packLoop, length_at]
    cases bodies with
    | nil =>
      have truncated := (Splits.nil_iff.mp split).2
      rw [Truncated, size] at truncated
      rw [List.take_nil, p.after_nil]
      by_cases room : p.off + 2 ≤ input.length ∧ p.msgCount.toNat < maxMessages
      · rw [if_pos room, if_pos (.inr (by omega))]
      · rw [if_neg room]
    | cons body bodies =>
      obtain ⟨small, later, whole, behind⟩ := Splits.cons_iff.mp split
      have some_bytes : 0 < body.length :=
        List.length_pos_iff.mpr (nonempty body List.mem_cons_self)
      have room : input.length - p.off = 2 + body.length + later.length := by
        rw [← size, whole, List.length_append, length_encode]
      have announced : BigEndian.readAt (input.drop p.off) 0 2 = body.length := by
        rw [whole, readAt_encode small]
      have held : (input.drop (p.off + 2)).take body.length = body := by
        rw [← List.drop_drop, whole, take_encode]
      have next : later = input.drop (p.after [body]).off := by
        simp only [Packing.after, fileOf, List.flatMap_cons, List.flatMap_nil, List.append_nil,
          length_encode]
        rw [← List.drop_drop, whole, drop_encode]
      rw [announced, fitCount]
      by_cases fits : p.msgCount.toNat < maxMessages ∧ p.out.length + 4 + body.length ≤ maxBytes
      · have counted : (p.after [body]).msgCount.toNat = p.msgCount.toNat + 1 := by
          have one : (UInt16.ofNat 1).toNat = 1 := rfl
          simp only [Packing.after, List.length_singleton]
          rw [UInt16.toNat_add, one]
          omega
        have turned : (⟨p.out ++ (toBytes 2 body.length ++ body), p.msgCount + 1,
            p.off + 2 + body.length⟩ : Packing) = p.after [body] := by
          simp only [Packing.after, fileOf, List.flatMap_cons, List.flatMap_nil, List.append_nil,
            length_encode, Nat.add_assoc]
          rfl
        rw [next] at behind
        have following := ih behind
          (fun other listed => nonempty other (List.mem_cons_of_mem _ listed))
          (Nat.lt_of_succ_lt_succ enough) (by rw [p.length_after]; omega)
        rw [if_pos ⟨by omega, fits.1⟩, if_neg (by omega), if_neg (by omega), held, turned, following,
          if_pos fits, counted, p.length_after, p.after_cons, Nat.add_comm 1, List.take_succ_cons]
      · rw [if_neg fits, List.take_zero, p.after_nil]
        by_cases count : p.msgCount.toNat < maxMessages
        · have large : ¬ p.out.length + 4 + body.length ≤ maxBytes := fun room => fits ⟨count, room⟩
          rw [if_pos ⟨by omega, count⟩, if_neg (by omega), if_pos (by omega)]
        · rw [if_neg (fun both => count both.2)]

theorem length_sessionField (f : ItchMoldUdpFramer) : f.sessionField.length = 10 := by
  simp only [sessionField, List.length_append, List.length_replicate, List.length_take]
  omega

theorem length_nextMessages : (nextMessages maxMessages maxBytes bodies).length =
    fitCount maxMessages maxBytes 0 20 bodies :=
  List.length_take_of_le (fitCount_le 0 20)

theorem length_nextMessages_le (maxBytes : Nat) (bodies : List (List UInt8)) :
    (nextMessages maxMessages maxBytes bodies).length ≤ maxMessages := by
  have count : 0 + fitCount maxMessages maxBytes 0 20 bodies ≤ maxMessages :=
    fitCount_count 0 20 (Nat.zero_le _)
  rw [length_nextMessages]
  omega

theorem length_fileOf_ge (messages : List (List UInt8)) :
    2 * messages.length ≤ (fileOf messages).length := by
  induction messages with
  | nil => exact Nat.zero_le _
  | cons message rest ih =>
    rw [fileOf_cons, List.length_append, length_encode, List.length_cons]
    omega

/-- Writing the count behind the loop. -/
theorem count_written (f : ItchMoldUdpFramer) (messages : List (List UInt8)) :
    (f.header ++ fileOf messages).take 18 ++
        (toBytes 2 messages.length ++ (f.header ++ fileOf messages).drop 20) =
      f.moldDatagram messages := by
  have front : (f.sessionField ++ toBytes 8 f.nextSeq.toNat).length = 18 := by
    rw [List.length_append, f.length_sessionField, BigEndian.length_toBytes]
  have whole : f.header ++ fileOf messages =
      (f.sessionField ++ toBytes 8 f.nextSeq.toNat) ++ ([0, 0] ++ fileOf messages) := by
    simp only [header, List.append_assoc]
  have behind : ((f.sessionField ++ toBytes 8 f.nextSeq.toNat) ++
      ([0, 0] ++ fileOf messages)).drop 20 = fileOf messages := by
    rw [← List.append_assoc]
    exact List.drop_left' (by rw [List.length_append, front]; rfl)
  rw [whole, List.take_left' front, behind, moldDatagram, List.append_assoc]

/-- The datagram holds the next messages of the input; without one there is no datagram. -/
theorem packDatagram_eq (f : ItchMoldUdpFramer) (split : Splits 2 input bodies rest)
    (nonempty : ∀ body ∈ bodies, body ≠ []) (few : maxMessages < 2 ^ 16) :
    f.packDatagram input maxMessages maxBytes =
      if nextMessages maxMessages maxBytes bodies = [] then { framer := f }
      else
        { framer :=
            { f with
              nextSeq := f.nextSeq +
                UInt64.ofNat (nextMessages maxMessages maxBytes bodies).length }
          datagram := f.moldDatagram (nextMessages maxMessages maxBytes bodies)
          consumed := (fileOf (nextMessages maxMessages maxBytes bodies)).length } := by
  have rows := length_fileOf_ge bodies
  have size := congrArg List.length split.whole
  rw [List.length_append, ← fileOf] at size
  rw [packDatagram]
  by_cases short : input.length < 2
  · obtain rfl : bodies = [] := List.length_eq_zero_iff.mp (by omega)
    rw [if_pos short]
    exact (if_pos rfl).symm
  · have header : f.header.length = 20 := by
      simp only [ItchMoldUdpFramer.header, List.length_append, f.length_sessionField,
        BigEndian.length_toBytes]
      rfl
    have looped : packLoop input maxMessages maxBytes input.length { out := f.header } = _ :=
      packLoop_eq split nonempty (by omega) header.ge few
    have taken : bodies.take (fitCount maxMessages maxBytes (0 : UInt16).toNat f.header.length
        bodies) = nextMessages maxMessages maxBytes bodies := by
      rw [header]
      rfl
    have count : (nextMessages maxMessages maxBytes bodies).length ≤ maxMessages :=
      length_nextMessages_le _ _
    have counted : (UInt16.ofNat (nextMessages maxMessages maxBytes bodies).length).toNat =
        (nextMessages maxMessages maxBytes bodies).length := by
      rw [UInt16.toNat_ofNat']
      omega
    rw [if_neg short, looped]
    simp only [taken, Packing.after, UInt16.zero_add, Nat.zero_add]
    by_cases none : nextMessages maxMessages maxBytes bodies = []
    · rw [if_pos none, none]
      rfl
    · have some_messages : UInt16.ofNat (nextMessages maxMessages maxBytes bodies).length ≠ 0 := by
        intro zero
        rw [zero] at counted
        exact none (List.length_eq_zero_iff.mp counted.symm)
      have widened : (UInt16.ofNat (nextMessages maxMessages maxBytes bodies).length).toUInt64 =
          UInt64.ofNat (nextMessages maxMessages maxBytes bodies).length := by
        apply UInt64.toNat_inj.mp
        rw [UInt16.toNat_toUInt64, counted, UInt64.toNat_ofNat']
        omega
      rw [if_neg none, if_neg some_messages, widened, counted, count_written]

end Packing

end ItchMoldUdpFramer
end FeedHandler
