import FeedHandler.Wire.ItchMoldUdp

/-! Packing and framing are inverse: whatever lengths the messages of a file have, the
datagrams of repeated calls hold them in order, and their sequences run on from one datagram
to the next. -/
namespace FeedHandler

open LengthPrefixed
open BigEndian (toBytes)

namespace DatagramFramer

/-- The messages that the framer finds in a datagram, with their sequences. -/
def framed (protocol : WireProtocol) (datagram : List UInt8) : List (List UInt8 × UInt64) :=
  (frame protocol datagram).map fun slice => (slice.payload datagram, slice.sequence)

/-- The slices of a payload without a rest are its messages, numbered one by one. -/
theorem framed_whole {datagram : List UInt8} {bodies : List (List UInt8)}
    (split : Splits 2 (payload .nasdaqItch50 datagram) bodies [])
    (count : messageCount .nasdaqItch50 datagram = bodies.length) :
    framed .nasdaqItch50 datagram =
      bodies.mapIdx fun i body => (body, firstSequence .nasdaqItch50 datagram + UInt64.ofNat i) := by
  have exact_frames := framesExactly (by decide) split
  have number := exact_frames.number
  rw [payloadStop, if_pos le_rfl, count, Nat.min_self] at number
  apply List.ext_getElem?
  intro j
  rw [framed, List.getElem?_map, List.getElem?_mapIdx]
  cases found : (frame .nasdaqItch50 datagram)[j]? with
  | none =>
    have past := List.getElem?_eq_none_iff.mp found
    rw [List.getElem?_eq_none (by omega)]
    rfl
  | some slice =>
    obtain ⟨body, sequence⟩ := exact_frames.each j slice found
    rw [body, Option.map_some, Option.map_some, sequence]

end DatagramFramer

namespace ItchMoldUdpFramer

theorem splits_fileOf {messages : List (List UInt8)}
    (small : ∀ message ∈ messages, message.length < 2 ^ 16) :
    Splits 2 (fileOf messages) messages [] where
  whole := (List.append_nil _).symm
  fits := small
  truncated := .inl (by decide)

section Mold

variable (f : ItchMoldUdpFramer) (messages : List (List UInt8))

theorem length_moldDatagram :
    (f.moldDatagram messages).length = 20 + (fileOf messages).length := by
  simp only [moldDatagram, List.length_append, f.length_sessionField, BigEndian.length_toBytes]
  omega

theorem firstSequence_moldDatagram :
    DatagramFramer.firstSequence .nasdaqItch50 (f.moldDatagram messages) = f.nextSeq := by
  have size := f.length_sessionField
  simp only [DatagramFramer.firstSequence, DatagramFramer.be64, moldDatagram]
  rw [BigEndian.readAt_append (by omega), size, BigEndian.readAt_here,
    Nat.mod_eq_of_lt (by exact f.nextSeq.toNat_lt), UInt64.ofNat_toNat]

theorem messageCount_moldDatagram (few : messages.length < 2 ^ 16) :
    DatagramFramer.messageCount .nasdaqItch50 (f.moldDatagram messages) = messages.length := by
  have size := f.length_sessionField
  simp only [DatagramFramer.messageCount, DatagramFramer.be16, moldDatagram]
  rw [BigEndian.readAt_append (by omega), size, BigEndian.readAt_append (by simp),
    BigEndian.length_toBytes, BigEndian.readAt_here, Nat.mod_eq_of_lt (by omega)]

theorem payload_moldDatagram :
    DatagramFramer.payload .nasdaqItch50 (f.moldDatagram messages) = fileOf messages := by
  have size : (f.sessionField ++ (toBytes 8 f.nextSeq.toNat ++ toBytes 2 messages.length)).length =
      20 := by
    simp only [List.length_append, f.length_sessionField, BigEndian.length_toBytes]
  have whole : f.moldDatagram messages =
      (f.sessionField ++ (toBytes 8 f.nextSeq.toNat ++ toBytes 2 messages.length)) ++
        fileOf messages := by
    simp only [moldDatagram, List.append_assoc]
  rw [DatagramFramer.payload, DatagramFramer.payloadStop, DatagramFramer.payloadStart,
    List.take_length, whole, List.drop_left' size]

/-- The framer takes a datagram apart into the messages it was made of. -/
theorem framed_moldDatagram (few : messages.length < 2 ^ 16)
    (small : ∀ message ∈ messages, message.length < 2 ^ 16) :
    DatagramFramer.framed .nasdaqItch50 (f.moldDatagram messages) =
      messages.mapIdx fun i message => (message, f.nextSeq + UInt64.ofNat i) := by
  have split := splits_fileOf small
  rw [← f.payload_moldDatagram messages] at split
  rw [DatagramFramer.framed_whole split (f.messageCount_moldDatagram messages few),
    firstSequence_moldDatagram]

end Mold

variable {maxMessages maxBytes : Nat} {messages : List (List UInt8)}

/-- Messages that each fit a datagram alone and whose length fits its field. -/
def Packable (maxBytes : Nat) (messages : List (List UInt8)) : Prop :=
  ∀ message ∈ messages,
    message ≠ [] ∧ message.length < 2 ^ 16 ∧ message.length + 24 ≤ maxBytes

theorem Packable.small (packable : Packable maxBytes messages) :
    ∀ message ∈ messages, message.length < 2 ^ 16 := fun message held => (packable message held).2.1

/-- A message that fits a datagram alone is the first of the next ones. -/
theorem nextMessages_ne_nil (packable : Packable maxBytes messages) (some_messages : messages ≠ [])
    (some_room : 1 ≤ maxMessages) : nextMessages maxMessages maxBytes messages ≠ [] := by
  obtain ⟨message, rest, rfl⟩ := List.exists_cons_of_ne_nil some_messages
  have fits := (packable message List.mem_cons_self).2.2
  rw [nextMessages, fitCount, if_pos ⟨some_room, by omega⟩, Nat.add_comm 1, List.take_succ_cons]
  exact List.cons_ne_nil _ _

/-- The next messages and their header are within the limit. -/
theorem length_nextMessages_fileOf (packable : Packable maxBytes messages)
    (some_messages : messages ≠ []) (maxMessages : Nat) :
    20 + (fileOf (nextMessages maxMessages maxBytes messages)).length ≤ maxBytes := by
  obtain ⟨message, rest, rfl⟩ := List.exists_cons_of_ne_nil some_messages
  have fits := (packable message List.mem_cons_self).2.2
  exact fitCount_size 0 20 (by omega)

/-- Step lemma: a call on the file of some messages packs the first of them and leaves the
file of the others. -/
theorem packDatagram_step (f : ItchMoldUdpFramer) (packable : Packable maxBytes messages)
    (some_messages : messages ≠ []) (some_room : 1 ≤ maxMessages) (few : maxMessages < 2 ^ 16) :
    ∃ lead later, messages = lead ++ later ∧ lead ≠ [] ∧ lead.length < 2 ^ 16 ∧
      20 + (fileOf lead).length ≤ maxBytes ∧
      f.packDatagram (fileOf messages) maxMessages maxBytes =
        { framer := { f with nextSeq := f.nextSeq + UInt64.ofNat lead.length }
          datagram := f.moldDatagram lead
          consumed := (fileOf lead).length } := by
  have nonempty := nextMessages_ne_nil packable some_messages some_room
  have packed : f.packDatagram (fileOf messages) maxMessages maxBytes = _ :=
    f.packDatagram_eq (splits_fileOf packable.small) (fun message held => (packable message held).1)
      few
  rw [if_neg nonempty] at packed
  refine ⟨_, messages.drop (nextMessages maxMessages maxBytes messages).length, ?_, nonempty,
    ?_, length_nextMessages_fileOf packable some_messages maxMessages, packed⟩
  · rw [length_nextMessages, nextMessages, List.take_append_drop]
  · exact (length_nextMessages_le _ _).trans_lt few

/-- Calls of `pack_datagram`, each on what the one before has left, until nothing is. -/
def packAll (maxMessages maxBytes : Nat) : Nat → ItchMoldUdpFramer → List UInt8 → List Packed
  | 0, _, _ => []
  | fuel + 1, f, input =>
    if input = [] then []
    else
      let packed := f.packDatagram input maxMessages maxBytes
      packed :: packAll maxMessages maxBytes fuel packed.framer (input.drop packed.consumed)

/-- What calls that have used up the file of some messages have done. -/
structure PacksAll (maxBytes : Nat) (seq : UInt64) (messages : List (List UInt8))
    (calls : List Packed) : Prop where
  progress : ∀ packed ∈ calls, 0 < packed.consumed
  bounded : ∀ packed ∈ calls, packed.datagram.length ≤ maxBytes
  used_up : (calls.map Packed.consumed).sum = (fileOf messages).length
  framed : (calls.flatMap fun packed => DatagramFramer.framed .nasdaqItch50 packed.datagram) =
    messages.mapIdx fun i message => (message, seq + UInt64.ofNat i)

/-- Run lemma: the datagrams hold the messages in order, numbered from the next sequence on,
and the calls use up the input. -/
theorem packAll_spec {fuel : Nat} (f : ItchMoldUdpFramer) (packable : Packable maxBytes messages)
    (some_room : 1 ≤ maxMessages) (few : maxMessages < 2 ^ 16)
    (enough : (fileOf messages).length ≤ fuel) :
    PacksAll maxBytes f.nextSeq messages
      (packAll maxMessages maxBytes fuel f (fileOf messages)) := by
  induction fuel generalizing f messages with
  | zero =>
    have rows := length_fileOf_ge messages
    obtain rfl : messages = [] := List.length_eq_zero_iff.mp (by omega)
    exact ⟨by simp [packAll], by simp [packAll], rfl, rfl⟩
  | succ fuel ih =>
    by_cases none : messages = []
    · subst none
      exact ⟨by simp [packAll, fileOf], by simp [packAll, fileOf], rfl, rfl⟩
    · obtain ⟨lead, later, rfl, some_lead, count, fits, packed⟩ :=
        packDatagram_step f packable none some_room few
      have rows := length_fileOf_ge lead
      have some_bytes : 0 < lead.length := List.length_pos_iff.mpr some_lead
      have more : fileOf (lead ++ later) ≠ [] := by
        intro empty
        have size := congrArg List.length empty
        rw [fileOf_append, List.length_append, List.length_nil] at size
        omega
      have rest : (fileOf (lead ++ later)).drop (fileOf lead).length = fileOf later := by
        rw [fileOf_append, List.drop_left]
      have left : Packable maxBytes later :=
        fun message held => packable message (List.mem_append_right _ held)
      have following := ih { f with nextSeq := f.nextSeq + UInt64.ofNat lead.length } left (by
          rw [fileOf_append, List.length_append] at enough
          omega)
      have first := f.framed_moldDatagram lead count
        (fun message held => packable.small message (List.mem_append_left _ held))
      simp only [packAll, if_neg more, packed, rest]
      refine ⟨?_, ?_, ?_, ?_⟩
      · intro call held
        rcases List.mem_cons.mp held with rfl | held
        · exact Nat.lt_of_lt_of_le (by omega) rows
        · exact following.progress call held
      · intro call held
        rcases List.mem_cons.mp held with rfl | held
        · exact (f.length_moldDatagram lead).trans_le fits
        · exact following.bounded call held
      · rw [List.map_cons, List.sum_cons, following.used_up, fileOf_append, List.length_append]
      · have shifted : ∀ i, f.nextSeq + UInt64.ofNat lead.length + UInt64.ofNat i =
            f.nextSeq + UInt64.ofNat (i + lead.length) := by
          intro i
          rw [UInt64.add_assoc, ← UInt64.ofNat_add, Nat.add_comm]
        rw [List.flatMap_cons, following.framed, first, List.mapIdx_append]
        simp only [shifted]

/-- Packing and framing are inverse, for every start of the sequence, any session name and
every pair of limits. -/
theorem packing_framing_inverse (session : List UInt8) (seq : UInt64) {maxMessages maxBytes : Nat}
    (some_room : 1 ≤ maxMessages) (few : maxMessages ≤ 65535) {messages : List (List UInt8)}
    (packable : Packable maxBytes messages) :
    PacksAll maxBytes seq messages
      (packAll maxMessages maxBytes (fileOf messages).length
        (({ session } : ItchMoldUdpFramer).resetSequence seq) (fileOf messages)) :=
  packAll_spec (({ session } : ItchMoldUdpFramer).resetSequence seq) packable some_room (by omega)
    le_rfl

/-- Three messages, of which two fit a datagram. -/
theorem packing_framing_inverse_three :
    PacksAll 30 7 [[1, 2], [3], [4, 5, 6]]
      (packAll 16 30 (fileOf [[1, 2], [3], [4, 5, 6]]).length
        (({ session := [] } : ItchMoldUdpFramer).resetSequence 7)
        (fileOf [[1, 2], [3], [4, 5, 6]])) :=
  packing_framing_inverse [] 7 (by decide) (by decide) (by simp [Packable])

end ItchMoldUdpFramer
end FeedHandler
