import FeedHandler.Phase2.AbArbiterUnseen
import FeedHandler.Wire.FeedSession

/-! The sequences of a datagram's frames at the arbiter. Those of a binary protocol count
up from the header's; a PITCH line is stamped with its time in milliseconds, which two
lines of a datagram can share. -/
namespace FeedHandler

namespace CboePitch

def isDigit (c : UInt8) : Bool := '0'.toUInt8 ≤ c && c ≤ '9'.toUInt8

/-- The number that decimal digits spell, behind the digits of `value`. -/
def decimalFrom (value : Nat) (chars : List UInt8) : Nat :=
  chars.foldl (fun value c => value * 10 + (c.toNat - '0'.toNat)) value

/-- Digits that fit a word spell their number. -/
theorem parseAsciiFrom_toNat (value : UInt64) (chars : List UInt8)
    (room : (value.toNat + 1) * 10 ^ chars.length ≤ 2 ^ 64) :
    (parseAsciiFrom value chars).toNat =
      if chars.all isDigit then decimalFrom value.toNat chars else 0 := by
  induction chars generalizing value with
  | nil => rfl
  | cons c rest ih =>
    simp only [parseAsciiFrom]
    rw [List.length_cons, Nat.pow_succ', ← Nat.mul_assoc] at room
    by_cases digit : isDigit c
    · have inside : ¬ (c < '0'.toUInt8 ∨ '9'.toUInt8 < c) := by
        simpa [isDigit, UInt8.not_lt] using digit
      have bounds := digit
      simp only [isDigit, Bool.and_eq_true, decide_eq_true_eq, UInt8.le_iff_toNat_le] at bounds
      have top : ('9'.toUInt8).toNat = '0'.toNat + 9 := by decide
      have low : ('0'.toUInt8).toNat = '0'.toNat := by decide
      have positive : 1 ≤ 10 ^ rest.length := Nat.one_le_pow _ _ (by decide)
      have small : (value.toNat + 1) * 10 ≤ 2 ^ 64 :=
        (Nat.le_mul_of_pos_right _ positive).trans room
      have next : (value * 10 + (c - '0'.toUInt8).toUInt64).toNat =
          value.toNat * 10 + (c.toNat - '0'.toNat) := by
        rw [UInt64.toNat_add, UInt64.toNat_mul, UInt8.toNat_toUInt64,
          UInt8.toNat_sub_of_le _ _ (UInt8.le_iff_toNat_le.mpr bounds.1), low,
          show (10 : UInt64).toNat = 10 from rfl]
        omega
      have grows : (value.toNat * 10 + (c.toNat - '0'.toNat) + 1) * 10 ^ rest.length ≤
          ((value.toNat + 1) * 10) * 10 ^ rest.length := Nat.mul_le_mul_right _ (by omega)
      rw [if_neg inside, ih _ (by rw [next]; exact grows.trans room), next, List.all_cons, digit,
        Bool.true_and]
      rfl
    · have outside : c < '0'.toUInt8 ∨ '9'.toUInt8 < c := by
        simpa [isDigit, UInt8.not_le, Decidable.not_and_iff_not_or_not, imp_iff_not_or] using digit
      rw [if_pos outside, List.all_cons, Bool.eq_false_iff.mpr digit]
      rfl

end CboePitch

/-- The time of a PITCH line in milliseconds; a line that does not start with eight digits
counts as zero. -/
def lineTime (line : List UInt8) : Nat :=
  if 8 ≤ line.length ∧ (line.take 8).all CboePitch.isDigit then
    CboePitch.decimalFrom 0 (line.take 8)
  else 0

/-- The nonempty lines of a datagram. -/
def textLines (datagram : List UInt8) : List (List UInt8) :=
  (datagram.splitOnP (· == '\n'.toUInt8)).filter (· ≠ [])

/-- Every line of the datagram is later than the line before it. -/
def TimesIncrease (datagram : List UInt8) : Prop :=
  ((textLines datagram).map lineTime).Pairwise (· < ·)

namespace DatagramFramer

variable {datagram : List UInt8}

theorem lineSequence_toNat (line : List UInt8) : (lineSequence line).toNat = lineTime line := by
  simp only [lineSequence, lineTime]
  by_cases long : 8 ≤ line.length
  · have eight : (line.take 8).length = 8 := by simpa using long
    rw [if_pos long, CboePitch.parseAsciiU64, CboePitch.parseAsciiFrom_toNat _ _ (by
      rw [eight]
      decide)]
    simp only [long, true_and]
    rfl
  · rw [if_neg long, if_neg (fun both => long both.1)]
    rfl

/-- The frame of a line is that line. -/
theorem frameLine_spec (before current rest : List UInt8) :
    (frameLine (before ++ current ++ rest) before.length (before.length + current.length)).map
        (fun slice => (slice.payload (before ++ current ++ rest), slice.sequence)) =
      ([current].filter (· ≠ [])).map fun line => (line, lineSequence line) := by
  have inside : ((before ++ current ++ rest).drop before.length).take
      (before.length + current.length - before.length) = current := by
    rw [List.append_assoc, List.drop_left, Nat.add_sub_cancel_left, List.take_left]
  simp only [frameLine, inside]
  cases current with
  | nil => simp
  | cons c line =>
    rw [if_pos (by simp)]
    simp [FrameSlice.payload]

/-- The loop frames the lines, each with the number it starts with. -/
theorem frameLines_spec (datagram rest before current : List UInt8) (plain : '\n'.toUInt8 ∉ current)
    (whole : datagram = before ++ current ++ rest) :
    (frameLines datagram rest (before.length + current.length) before.length).map
        (fun slice => (slice.payload datagram, slice.sequence)) =
      (((current ++ rest).splitOnP (· == '\n'.toUInt8)).filter (· ≠ [])).map
        fun line => (line, lineSequence line) := by
  have ends : ∀ c ∈ current, (c == '\n'.toUInt8) = false := by
    intro c member
    exact beq_eq_false_iff_ne.mpr (fun newline => plain (newline ▸ member))
  induction rest generalizing before current with
  | nil =>
    rw [frameLines, List.append_nil, List.splitOnP_eq_singleton ends, whole]
    exact frameLine_spec before current []
  | cons c rest ih =>
    rw [frameLines]
    by_cases newline : c = '\n'.toUInt8
    · have line := frameLine_spec before current (c :: rest)
      rw [← whole] at line
      have later := ih (before ++ current ++ [c]) [] List.not_mem_nil (by simp [whole])
        (by simp)
      simp only [List.length_append, List.length_singleton, List.length_nil, Nat.add_zero,
        List.nil_append] at later
      rw [if_neg (not_not.mpr newline), List.map_append, line, later,
        List.splitOnP_append_cons_of_forall_mem ends c (by simp [newline]) rest,
        ← List.singleton_append (l := List.splitOnP _ rest), List.filter_append, List.map_append]
    · have longer := ih before (current ++ [c]) (by simp [plain, Ne.symm newline])
        (by simp [whole]) (by
          intro x member
          rcases List.mem_append.mp member with old | new
          · exact ends x old
          · rw [List.mem_singleton.mp new]
            exact beq_eq_false_iff_ne.mpr newline)
      rw [List.length_append, List.length_singleton, ← Nat.add_assoc, List.append_assoc,
        List.singleton_append] at longer
      rw [if_pos newline, longer]

theorem pitch_sequences (datagram : List UInt8) :
    (frame .cboePitch datagram).map (fun slice => slice.sequence.toNat) =
      (textLines datagram).map lineTime := by
  have spec := congrArg (List.map fun pair : List UInt8 × UInt64 => pair.2.toNat)
    (frameLines_spec datagram datagram [] [] List.not_mem_nil rfl)
  simp only [List.map_map, List.length_nil, Nat.add_zero, List.nil_append] at spec
  rw [frame]
  split
  · next empty => simp [empty, textLines]
  · refine spec.trans (List.map_congr_left fun line _ => ?_)
    exact lineSequence_toNat line

/-- The frames of a binary protocol are numbered from the header's sequence on. -/
theorem frameMessages_sequences (limit : Nat) (firstSeq : UInt64) (remaining i off : Nat)
    (room : firstSeq.toNat + i +
      (frameMessages datagram limit firstSeq remaining i off).length ≤ 2 ^ 64) :
    (frameMessages datagram limit firstSeq remaining i off).map
        (fun slice => slice.sequence.toNat) =
      List.range' (firstSeq.toNat + i)
        (frameMessages datagram limit firstSeq remaining i off).length := by
  induction remaining generalizing i off with
  | zero => rfl
  | succ remaining ih =>
    simp only [frameMessages] at room ⊢
    split at room
    · next header =>
      rw [if_pos header]
      split at room
      · next cut =>
        rw [if_pos cut]
        rfl
      · next body =>
        rw [if_neg body]
        rw [List.length_cons] at room
        have here : (firstSeq + UInt64.ofNat i).toNat = firstSeq.toNat + i := by
          rw [UInt64.toNat_add, UInt64.toNat_ofNat']
          omega
        rw [List.map_cons, List.length_cons, List.range'_succ, ih _ _ (by omega), here]
        rfl
    · next short =>
      rw [if_neg short]
      rfl

/-- The first sequence in the header of a binary protocol. -/
def firstSequence (protocol : WireProtocol) (datagram : List UInt8) : UInt64 :=
  match protocol with
  | .nasdaqItch50 => be64 datagram 10
  | .iexDeep => be64 datagram 20
  | .cboePitch => 0

def messageCount (protocol : WireProtocol) (datagram : List UInt8) : Nat :=
  match protocol with
  | .nasdaqItch50 => be16 datagram 18
  | .iexDeep => be16 datagram 10
  | .cboePitch => 0

/-- The length of the header in front of the messages. -/
def payloadStart : WireProtocol → Nat
  | .nasdaqItch50 => 20
  | .iexDeep => 36
  | .cboePitch => 0

/-- Where the messages end: with the datagram, or where IEX-TP declares it. -/
def payloadStop (protocol : WireProtocol) (datagram : List UInt8) : Nat :=
  match protocol with
  | .nasdaqItch50 => datagram.length
  | .iexDeep => 36 + be16 datagram 8
  | .cboePitch => datagram.length

theorem frameMessages_stop {limit off : Nat} (short : ¬ off + 2 ≤ limit) (firstSeq : UInt64)
    (remaining i : Nat) : frameMessages datagram limit firstSeq remaining i off = [] := by
  cases remaining with
  | zero => rfl
  | succ remaining => rw [frameMessages, if_neg short]

/-- A binary protocol runs the loop over its payload, unless the payload is cut. -/
theorem frame_binary {protocol : WireProtocol} (binary : protocol ≠ .cboePitch) :
    frame protocol datagram =
      if payloadStop protocol datagram ≤ datagram.length then
        frameMessages datagram (payloadStop protocol datagram) (firstSequence protocol datagram)
          (messageCount protocol datagram) 0 (payloadStart protocol)
      else [] := by
  cases protocol with
  | nasdaqItch50 =>
    rw [if_pos (show payloadStop .nasdaqItch50 datagram ≤ datagram.length from le_rfl)]
    by_cases short : datagram.length < 20
    · -- Nothing lies behind a header that is cut, so the loop would stop at once.
      have stops : ¬ payloadStart .nasdaqItch50 + 2 ≤ payloadStop .nasdaqItch50 datagram := by
        simp only [payloadStart, payloadStop]
        omega
      rw [frameMessages_stop stops]
      simp only [frame, frameMold, if_pos short, ite_self]
    · have filled : datagram ≠ [] := by
        rintro rfl
        exact short (by decide)
      simp only [frame, if_neg filled, frameMold, if_neg short]
      rfl
  | iexDeep =>
    by_cases whole : payloadStop .iexDeep datagram ≤ datagram.length
    · rw [if_pos whole]
      simp only [payloadStop] at whole
      have filled : datagram ≠ [] := by
        rintro rfl
        simp only [List.length_nil] at whole
        omega
      simp only [frame, if_neg filled, frameIex, if_neg (show ¬ datagram.length < 36 by omega),
        if_neg (show ¬ 36 + be16 datagram 8 > datagram.length by omega)]
      rfl
    · rw [if_neg whole]
      simp only [payloadStop] at whole
      simp only [frame, frameIex, if_pos (show 36 + be16 datagram 8 > datagram.length by omega),
        ite_self]
  | cboePitch => exact absurd rfl binary

theorem binary_sequences {protocol : WireProtocol} (binary : protocol ≠ .cboePitch)
    (room : (firstSequence protocol datagram).toNat + (frame protocol datagram).length < 2 ^ 64) :
    (frame protocol datagram).map (fun slice => slice.sequence.toNat) =
      List.range' (firstSequence protocol datagram).toNat (frame protocol datagram).length := by
  rw [frame_binary binary] at room ⊢
  split at room
  · next whole =>
    rw [if_pos whole]
    exact frameMessages_sequences _ _ _ 0 _ room.le
  · next cut =>
    rw [if_neg cut]
    rfl

/-- Frames increase in sequence, for a binary protocol unconditionally. -/
theorem sequences_increase_iff (protocol : WireProtocol) (datagram : List UInt8)
    (room : protocol ≠ .cboePitch →
      (firstSequence protocol datagram).toNat + (frame protocol datagram).length < 2 ^ 64) :
    ((frame protocol datagram).map fun slice => slice.sequence.toNat).Pairwise (· < ·) ↔
      (protocol = .cboePitch → TimesIncrease datagram) := by
  by_cases text : protocol = .cboePitch
  · subst text
    rw [pitch_sequences]
    exact ⟨fun increase _ => increase, fun increase => increase rfl⟩
  · rw [binary_sequences text (room text)]
    exact ⟨fun _ pitch => absurd pitch text, fun _ => List.pairwise_lt_range'⟩

end DatagramFramer

/-- Fed to the arbiter one after another, an event is answered as duplicate or old only if
the arbiter had its sequence before the first of them. -/
def NoneCollides (arb : AbArbiter) (side : FeedSide) (events : List BookEvent) : Prop :=
  ∀ front ev rest, events = front ++ ev :: rest →
    ((arb.feed side front).onEvent side ev).2.status = .duplicateOrOld → arb.Has ev.venue ev.seq

theorem noneCollides_of_increase {arb : AbArbiter} {events : List BookEvent} {v : Venue}
    (side : FeedSide) (labels : arb.Labelled v) (venue : ∀ ev ∈ events, ev.venue = v)
    (increase : (events.map BookEvent.seq).Pairwise (· < ·)) : NoneCollides arb side events := by
  rintro front ev rest rfl answered
  by_contra fresh
  have here : ev.venue = v := venue ev (by simp)
  subst here
  have below : ∀ e ∈ front, e.seq < ev.seq := by
    rw [List.map_append, List.map_cons, List.pairwise_append] at increase
    exact fun e member => increase.2.2 _ (List.mem_map_of_mem member) _ List.mem_cons_self
  have unseen := AbArbiter.feed_unseen side
    (fun e member => venue e (List.mem_append_left _ member)) below
    (AbArbiter.unseen_of_not_has labels fresh)
  exact unseen.not_old answered

/-- The frames of a datagram increase in sequence, and no arbiter answers an event of the
datagram as old because of the events before it. -/
def Usable (protocol : WireProtocol) (datagram : List UInt8) : Prop :=
  ((DatagramFramer.frame protocol datagram).map fun slice =>
      slice.sequence.toNat).Pairwise (· < ·) ∧
    ∀ (s : FeedSession) (ingestTsNs : UInt64) (gapWindow : Nat) (calls : List AbCall),
      s.protocol = protocol →
      NoneCollides (AbSession.run gapWindow calls).arb s.side (s.receive datagram ingestTsNs).2

theorem frames_usable_iff (protocol : WireProtocol) (datagram : List UInt8)
    (room : protocol ≠ .cboePitch → (DatagramFramer.firstSequence protocol datagram).toNat +
      (DatagramFramer.frame protocol datagram).length < 2 ^ 64) :
    Usable protocol datagram ↔ (protocol = .cboePitch → TimesIncrease datagram) := by
  rw [← DatagramFramer.sequences_increase_iff protocol datagram room]
  constructor
  · exact fun usable => usable.1
  · intro increase
    refine ⟨increase, ?_⟩
    rintro s ingestTsNs gapWindow calls rfl
    obtain ⟨sublist, venues⟩ := FeedSession.deliver_stamps datagram ingestTsNs
      (DatagramFramer.frame s.protocol datagram) { s with stats := _ }
    have numbers := sublist.map UInt64.toNat
    rw [List.map_map, List.map_map] at numbers
    exact noneCollides_of_increase s.side (AbSession.run_labelled gapWindow calls _) venues
      (increase.sublist numbers)

/-- A MoldUDP64 datagram with two one-byte messages. -/
def moldDatagram : List UInt8 :=
  List.replicate 10 0 ++ BigEndian.toBytes 8 100 ++ BigEndian.toBytes 2 2 ++
    BigEndian.toBytes 2 1 ++ ['S'.toUInt8] ++ BigEndian.toBytes 2 1 ++ ['S'.toUInt8]

theorem frames_usable_iff_two_messages :
    (DatagramFramer.frame .nasdaqItch50 moldDatagram).length = 2 ∧
      (Usable .nasdaqItch50 moldDatagram ↔
        (WireProtocol.nasdaqItch50 = .cboePitch → TimesIncrease moldDatagram)) :=
  ⟨by decide +kernel, frames_usable_iff .nasdaqItch50 moldDatagram (fun _ => by decide +kernel)⟩

/-- A PITCH line that adds an order of 100 shares in the first millisecond. -/
def addLine (order : Char) : List UInt8 :=
  (['0', '0', '0', '0', '0', '0', '0', '1', 'A', '0', '0', '0', '0', '0', '0', '0', '0', '0', '0',
    '0', order, 'B', '0', '0', '0', '1', '0', '0', 'A', 'A', 'P', 'L', ' ', ' ', '0', '0', '0', '0',
    '1', '0', '0', '0', '0', '0', 'Y', '\n'].map Char.toUInt8)

/-- Two orders added in one millisecond have one sequence, and an arbiter that has seen
nothing else drops the second. -/
theorem same_time_collides :
    let received := ((FeedSession.create .cboePitch .a).receive (addLine '1' ++ addLine '2') 7).2
    received.map (fun ev => (ev.type, ev.orderId, ev.sequence)) = [(.add, 1, 1), (.add, 2, 1)] ∧
      ¬ Usable .cboePitch (addLine '1' ++ addLine '2') ∧
      ((AbArbiter.create 16).feed .a received).ready.map BookEvent.orderId = [1] ∧
      ((AbArbiter.create 16).feed .a received).stats.duplicateOrOld = 1 := by
  refine ⟨by decide +kernel, fun usable => ?_, by decide +kernel, by decide +kernel⟩
  exact absurd usable.1 (by decide +kernel)

end FeedHandler
