import FeedHandler.Lib.LengthPrefixed
import FeedHandler.Wire.FrameSequences

/-! Binary framing is exact: the slices of a datagram are the complete messages of its
payload, as many as the header announces, each with its own sequence. The one exception is
an IEX-TP datagram that ends before its declared payload does, which is dropped whole. -/
namespace FeedHandler
namespace DatagramFramer
open LengthPrefixed

/-- The part of a datagram that holds messages. -/
def payload (protocol : WireProtocol) (datagram : List UInt8) : List UInt8 :=
  (datagram.take (payloadStop protocol datagram)).drop (payloadStart protocol)

/-- The slices of a datagram are its messages `bodies`. Between two of them there is at
least the length field of the later one. -/
structure FramesExactly (protocol : WireProtocol) (datagram : List UInt8)
    (bodies : List (List UInt8)) : Prop where
  number : (frame protocol datagram).length =
    if payloadStop protocol datagram ≤ datagram.length then
      min (messageCount protocol datagram) bodies.length
    else 0
  inside : ∀ slice ∈ frame protocol datagram,
    payloadStart protocol ≤ slice.offset ∧
      slice.offset + slice.len ≤ payloadStop protocol datagram ∧
      payloadStop protocol datagram ≤ datagram.length
  apart : (frame protocol datagram).Pairwise fun first second =>
    first.offset + first.len + 2 ≤ second.offset
  each : ∀ i slice, (frame protocol datagram)[i]? = some slice →
    bodies[i]? = some (slice.payload datagram) ∧
      slice.sequence = firstSequence protocol datagram + UInt64.ofNat i

/-- The slices of messages that lie one behind the other, message `i` from `off` on. -/
def slicesFrom (firstSeq : UInt64) : Nat → Nat → List (List UInt8) → List FrameSlice
  | _, _, [] => []
  | i, off, body :: bodies =>
    ⟨off + 2, body.length, firstSeq + UInt64.ofNat i⟩ ::
      slicesFrom firstSeq (i + 1) (off + 2 + body.length) bodies

section Loop

variable {datagram rest : List UInt8} {limit off i : Nat} {firstSeq : UInt64}
  {bodies : List (List UInt8)}

theorem be16_region (header : off + 2 ≤ limit) :
    be16 datagram off = BigEndian.readAt ((datagram.take limit).drop off) 0 2 := by
  rw [be16, BigEndian.readAt, BigEndian.readAt, List.drop_zero, List.drop_take, List.take_take,
    Nat.min_eq_left (by omega)]

theorem length_region (within : limit ≤ datagram.length) :
    ((datagram.take limit).drop off).length = limit - off := by
  rw [List.length_drop, List.length_take, Nat.min_eq_left within]

/-- The loop finds the messages that the bytes below the limit split into, up to the number
that remains. -/
theorem frameMessages_eq (within : limit ≤ datagram.length) (remaining : Nat)
    (split : Splits 2 ((datagram.take limit).drop off) bodies rest) :
    frameMessages datagram limit firstSeq remaining i off =
      (slicesFrom firstSeq i off bodies).take remaining := by
  induction remaining generalizing i off bodies with
  | zero => rfl
  | succ remaining ih =>
    have size : ((datagram.take limit).drop off).length = limit - off := length_region within
    simp only [frameMessages]
    cases bodies with
    | nil =>
      have truncated := (Splits.nil_iff.mp split).2
      rw [Truncated, size] at truncated
      by_cases header : off + 2 ≤ limit
      · rw [← be16_region header] at truncated
        rw [if_pos header, if_pos (by omega)]
        rfl
      · rw [if_neg header]
        rfl
    | cons body bodies =>
      obtain ⟨small, later, whole, behind⟩ := Splits.cons_iff.mp split
      have room : limit - off = 2 + body.length + later.length := by
        rw [← size, whole, List.length_append, length_encode]
      have header : off + 2 ≤ limit := by omega
      have mlen : be16 datagram off = body.length := by
        rw [be16_region header, whole, readAt_encode small]
      have next : later = (datagram.take limit).drop (off + 2 + body.length) := by
        rw [Nat.add_assoc, ← List.drop_drop, whole, drop_encode]
      rw [next] at behind
      rw [if_pos header, mlen, if_neg (by omega), ih behind]
      rfl

theorem length_slicesFrom : (slicesFrom firstSeq i off bodies).length = bodies.length := by
  induction bodies generalizing i off with
  | nil => rfl
  | cons body bodies ih => rw [slicesFrom, List.length_cons, ih, List.length_cons]

theorem slicesFrom_behind :
    ∀ slice ∈ slicesFrom firstSeq i off bodies, off + 2 ≤ slice.offset := by
  induction bodies generalizing i off with
  | nil => exact fun slice listed => absurd listed List.not_mem_nil
  | cons body bodies ih =>
    intro slice listed
    cases List.mem_cons.mp listed with
    | inl here => rw [here]
    | inr later =>
      have behind := ih slice later
      omega

theorem slicesFrom_apart : (slicesFrom firstSeq i off bodies).Pairwise fun first second =>
    first.offset + first.len + 2 ≤ second.offset := by
  induction bodies generalizing i off with
  | nil => exact List.Pairwise.nil
  | cons body bodies ih => exact List.pairwise_cons.mpr ⟨slicesFrom_behind, ih⟩

/-- Each slice ends within the limit, holds its message and has its number. -/
theorem slicesFrom_each (within : limit ≤ datagram.length)
    (split : Splits 2 ((datagram.take limit).drop off) bodies rest) (j : Nat) {slice : FrameSlice}
    (found : (slicesFrom firstSeq i off bodies)[j]? = some slice) :
    slice.offset + slice.len ≤ limit ∧ bodies[j]? = some (slice.payload datagram) ∧
      slice.sequence = firstSeq + UInt64.ofNat (i + j) := by
  induction bodies generalizing i off j with
  | nil => simp [slicesFrom] at found
  | cons body bodies ih =>
    obtain ⟨small, later, whole, behind⟩ := Splits.cons_iff.mp split
    have room : limit - off = 2 + body.length + later.length := by
      rw [← length_region within, whole, List.length_append, length_encode]
    cases j with
    | zero =>
      obtain rfl : ⟨off + 2, body.length, firstSeq + UInt64.ofNat i⟩ = slice := by
        simpa [slicesFrom] using found
      have held : (datagram.drop (off + 2)).take body.length = body := by
        have cut : (((datagram.take limit).drop off).drop 2).take body.length = body := by
          rw [whole, take_encode]
        rwa [List.drop_drop, List.drop_take, List.take_take, Nat.min_eq_left (by omega)] at cut
      refine ⟨by simp only; omega, ?_, rfl⟩
      rw [FrameSlice.payload, held]
      rfl
    | succ j =>
      have next : later = (datagram.take limit).drop (off + 2 + body.length) := by
        rw [Nat.add_assoc, ← List.drop_drop, whole, drop_encode]
      rw [next] at behind
      have tail := ih behind j (by simpa [slicesFrom] using found)
      rwa [Nat.add_right_comm, Nat.add_assoc] at tail

end Loop

section Frames

variable {protocol : WireProtocol} {datagram rest : List UInt8} {bodies : List (List UInt8)}

theorem frame_of_cut (binary : protocol ≠ .cboePitch)
    (cut : ¬ payloadStop protocol datagram ≤ datagram.length) : frame protocol datagram = [] := by
  rw [frame_binary binary, if_neg cut]

theorem frame_eq_take (binary : protocol ≠ .cboePitch)
    (split : Splits 2 (payload protocol datagram) bodies rest)
    (whole : payloadStop protocol datagram ≤ datagram.length) :
    frame protocol datagram =
      (slicesFrom (firstSequence protocol datagram) 0 (payloadStart protocol) bodies).take
        (messageCount protocol datagram) := by
  rw [frame_binary binary, if_pos whole]
  exact frameMessages_eq whole _ split

theorem framesExactly (binary : protocol ≠ .cboePitch)
    (split : Splits 2 (payload protocol datagram) bodies rest) :
    FramesExactly protocol datagram bodies := by
  by_cases whole : payloadStop protocol datagram ≤ datagram.length
  · have framed := frame_eq_take binary split whole
    refine ⟨?_, ?_, ?_, ?_⟩
    · rw [if_pos whole, framed, List.length_take, length_slicesFrom]
    · intro slice listed
      rw [framed] at listed
      have found := List.mem_of_mem_take listed
      have behind := slicesFrom_behind slice found
      obtain ⟨j, place⟩ := List.mem_iff_getElem?.mp found
      exact ⟨by omega, (slicesFrom_each whole split j place).1, whole⟩
    · rw [framed]
      exact slicesFrom_apart.sublist (List.take_sublist _ _)
    · intro j slice found
      rw [framed, List.getElem?_take] at found
      split at found
      · have each := (slicesFrom_each whole split j found).2
        rwa [Nat.zero_add] at each
      · exact absurd found (by simp)
  · have nothing := frame_of_cut binary whole
    refine ⟨?_, ?_, ?_, ?_⟩
    · rw [if_neg whole, nothing, List.length_nil]
    · rw [nothing]
      exact fun slice listed => absurd listed List.not_mem_nil
    · rw [nothing]
      exact List.Pairwise.nil
    · rw [nothing]
      exact fun j slice found => absurd found (by simp)

end Frames

/-- The payload of a datagram splits in one way into complete messages and a truncated one,
and the slices are these messages. -/
theorem binary_framing_exact (protocol : WireProtocol) (binary : protocol ≠ .cboePitch)
    (datagram : List UInt8) :
    ∃ bodies rest, Splits 2 (payload protocol datagram) bodies rest ∧
      (∀ others left, Splits 2 (payload protocol datagram) others left → others = bodies) ∧
      FramesExactly protocol datagram bodies := by
  obtain ⟨bodies, rest, split⟩ := exists_splits (by decide : 0 < 2) (payload protocol datagram)
  exact ⟨bodies, rest, split, fun others left other => split.unique other,
    framesExactly binary split⟩

theorem binary_framing_exact_two_messages :
    ∃ bodies rest, Splits 2 (payload .nasdaqItch50 moldDatagram) bodies rest ∧
      (∀ others left, Splits 2 (payload .nasdaqItch50 moldDatagram) others left →
        others = bodies) ∧
      FramesExactly .nasdaqItch50 moldDatagram bodies :=
  binary_framing_exact .nasdaqItch50 (by decide) moldDatagram

/-- An IEX-TP datagram with one complete message that declares a longer payload. -/
def cutDatagram : List UInt8 :=
  List.replicate 8 0 ++ [0, 9, 0, 1] ++ List.replicate 24 0 ++ [0, 1, 'D'.toUInt8]

theorem cut_payload_dropped :
    ¬ ∀ (protocol : WireProtocol) (datagram : List UInt8) (bodies : List (List UInt8))
      (rest : List UInt8), protocol ≠ .cboePitch →
      Splits 2 (payload protocol datagram) bodies rest →
      (frame protocol datagram).length = min (messageCount protocol datagram) bodies.length := by
  intro counted
  have split : Splits 2 (payload .iexDeep cutDatagram) [['D'.toUInt8]] [] :=
    ⟨by decide, by decide, Or.inl (by decide)⟩
  exact absurd (counted .iexDeep cutDatagram _ _ (by decide) split) (by decide)

end DatagramFramer
end FeedHandler
