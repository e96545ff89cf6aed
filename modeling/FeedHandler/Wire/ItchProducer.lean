import FeedHandler.Wire.MoldRoundTrip

/-! The AF_XDP test producer. Its loop counts how far it has come into the file, and tells
the packer how much is left, but hands it the start of the file every time: each datagram
holds the first messages of the file, as many as fit into what is left of it. -/
namespace FeedHandler

open LengthPrefixed

namespace ItchProducer

open ItchMoldUdpFramer (fileOf nextMessages Packable)

/-- The sending loop of `main` with a limit on datagrams, zero for none. Every turn moves
the offset on, so the length of the file is fuel enough. -/
def loop (file : List UInt8) (maxEvents : UInt64) :
    Nat → ItchMoldUdpFramer → Nat → UInt64 → List (List UInt8)
  | 0, _, _, _ => []
  | fuel + 1, framer, off, messagesSent =>
    if off + 2 ≤ file.length then
      let packed := framer.packDatagram (file.take (file.length - off)) 16 1400
      if packed.datagram = [] then []
      else
        let messagesSent := messagesSent + if 0 < packed.consumed then 1 else 0
        packed.datagram ::
          if 0 < maxEvents ∧ maxEvents ≤ messagesSent then []
          else loop file maxEvents fuel packed.framer (off + packed.consumed) messagesSent
    else []

/-- The datagrams that are sent of a file; a limit on bytes cuts it first. -/
def datagrams (file : List UInt8) (maxEvents maxBytes : UInt64) : List (List UInt8) :=
  let fileBuf :=
    if 0 < maxBytes ∧ maxBytes.toNat < file.length then file.take maxBytes.toNat else file
  loop fileBuf maxEvents (fileBuf.length + 1) {} 0 0

/-- The messages that a receiver finds in datagrams. -/
def received (datagrams : List (List UInt8)) : List (List UInt8) :=
  datagrams.flatMap fun datagram => (DatagramFramer.framed .nasdaqItch50 datagram).map Prod.fst

/-- The leading messages that are whole within a number of bytes. -/
def fitting : Nat → List (List UInt8) → List (List UInt8)
  | _, [] => []
  | bytes, message :: rest =>
    if 2 + message.length ≤ bytes then message :: fitting (bytes - (2 + message.length)) rest
    else []

/-- The messages of the file that a datagram holds when so many bytes are left. -/
def leading (messages : List (List UInt8)) (bytes : Nat) : List (List UInt8) :=
  nextMessages 16 1400 (fitting bytes messages)

/-- The messages that remain begin with the first ones of the file, as many as go into a
datagram and into the bytes that are left, and so do those behind them, to the end. -/
inductive StartsOver (messages : List (List UInt8)) : List (List UInt8) → Prop where
  | done : StartsOver messages []
  | again {lead rest : List (List UInt8)} (some_lead : lead ≠ [])
      (repeated : leading messages (fileOf (lead ++ rest)).length = lead)
      (later : StartsOver messages rest) : StartsOver messages (lead ++ rest)

variable {messages remaining : List (List UInt8)}

theorem fitting_sublist (bytes : Nat) : ∀ message ∈ fitting bytes messages, message ∈ messages := by
  induction messages generalizing bytes with
  | nil => simp [fitting]
  | cons first rest ih =>
    intro message held
    rw [fitting] at held
    split at held
    · rcases List.mem_cons.mp held with rfl | held
      · exact List.mem_cons_self
      · exact List.mem_cons_of_mem _ (ih _ message held)
    · cases held

/-- The start of a file splits into the messages that are whole within it. -/
theorem splits_take {bytes : Nat} (small : ∀ message ∈ messages, message.length < 2 ^ 16)
    (within : bytes ≤ (fileOf messages).length) :
    ∃ rest, Splits 2 ((fileOf messages).take bytes) (fitting bytes messages) rest := by
  induction messages generalizing bytes with
  | nil =>
    have none : bytes = 0 := Nat.le_zero.mp within
    exact ⟨[], Splits.nil_iff.mpr ⟨by simp [fileOf], .inl (by simp [fileOf])⟩⟩
  | cons message rest ih =>
    have short := small message List.mem_cons_self
    rw [ItchMoldUdpFramer.fileOf_cons] at within ⊢
    rw [List.length_append, length_encode] at within
    rw [fitting]
    by_cases whole : 2 + message.length ≤ bytes
    · have inside : bytes - (2 + message.length) ≤ (fileOf rest).length := by omega
      obtain ⟨left, split⟩ := ih (fun other held => small other (List.mem_cons_of_mem _ held)) inside
      rw [if_pos whole]
      refine ⟨left, Splits.cons_iff.mpr ⟨short, _, ?_, split⟩⟩
      rw [List.take_append, length_encode,
        List.take_of_length_le (by rw [length_encode]; exact whole)]
    · rw [if_neg whole]
      refine ⟨_, Splits.nil_iff.mpr ⟨rfl, ?_⟩⟩
      have size : ((encode 2 message ++ fileOf rest).take bytes).length = bytes := by
        rw [List.length_take, List.length_append, length_encode]
        omega
      rw [Truncated, size]
      by_cases header : bytes < 2
      · exact .inl header
      · have announced : BigEndian.readAt ((encode 2 message ++ fileOf rest).take bytes) 0 2 =
            message.length := by
          have read : BigEndian.readAt (encode 2 message ++ fileOf rest) 0 2 = message.length :=
            readAt_encode short
          rw [BigEndian.readAt, List.drop_zero] at read ⊢
          rw [List.take_take, Nat.min_eq_left (by omega), read]
        rw [announced]
        exact .inr (by omega)

/-- The messages of the datagrams that are sent while so many bytes are left. -/
def restarts (messages : List (List UInt8)) : Nat → Nat → List (List (List UInt8))
  | 0, _ => []
  | fuel + 1, bytes =>
    if bytes < 2 then []
    else if leading messages bytes = [] then []
    else
      leading messages bytes ::
        restarts messages fuel (bytes - (fileOf (leading messages bytes)).length)

/-- Run lemma: every datagram starts the file over. -/
theorem received_loop {fuel off : Nat} (packable : Packable 1400 messages)
    (framer : ItchMoldUdpFramer) (sent : UInt64) :
    received (loop (fileOf messages) 0 fuel framer off sent) =
      (restarts messages fuel ((fileOf messages).length - off)).flatten := by
  induction fuel generalizing framer off sent with
  | zero => rfl
  | succ fuel ih =>
    rw [loop, restarts]
    by_cases more : off + 2 ≤ (fileOf messages).length
    · obtain ⟨rest, split⟩ := splits_take packable.small
        (Nat.sub_le (fileOf messages).length off)
      have fits := fun message held =>
        packable message (fitting_sublist ((fileOf messages).length - off) message held)
      have packed : framer.packDatagram
          ((fileOf messages).take ((fileOf messages).length - off)) 16 1400 = _ :=
        framer.packDatagram_eq split (fun message held => (fits message held).1) (by decide)
      rw [if_pos more, if_neg (by omega : ¬ (fileOf messages).length - off < 2), packed]
      rw [← leading]
      by_cases none : leading messages ((fileOf messages).length - off) = []
      · rw [if_pos none, if_pos none, if_pos rfl]
        rfl
      · have some_bytes : framer.moldDatagram (leading messages ((fileOf messages).length - off)) ≠
            [] := by
          intro empty
          have size := framer.length_moldDatagram
            (leading messages ((fileOf messages).length - off))
          rw [empty, List.length_nil] at size
          omega
        have count : (leading messages ((fileOf messages).length - off)).length < 2 ^ 16 :=
          (ItchMoldUdpFramer.length_nextMessages_le _ _).trans_lt (by decide)
        have small : ∀ message ∈ leading messages ((fileOf messages).length - off),
            message.length < 2 ^ 16 :=
          fun message held => (fits message (List.mem_of_mem_take held)).2.1
        have found := framer.framed_moldDatagram _ count small
        have bodies : (DatagramFramer.framed .nasdaqItch50 (framer.moldDatagram
            (leading messages ((fileOf messages).length - off)))).map Prod.fst =
              leading messages ((fileOf messages).length - off) := by
          rw [found]
          apply List.ext_getElem?
          intro i
          simp [Function.comp_def]
        have unlimited : ¬ (0 < (0 : UInt64)) := by decide
        simp only [if_neg none, if_neg some_bytes, unlimited, false_and, if_false, received,
          List.flatMap_cons, List.flatten_cons, bodies]
        rw [← received, ih, Nat.sub_sub]
    · rw [if_neg more, if_pos (by omega)]
      rfl

/-- What is sent is what remains exactly if that starts over again and again. -/
theorem restarts_iff {fuel : Nat} (enough : remaining.length ≤ fuel) :
    (restarts messages fuel (fileOf remaining).length).flatten = remaining ↔
      StartsOver messages remaining := by
  induction fuel generalizing remaining with
  | zero =>
    obtain rfl : remaining = [] := List.length_eq_zero_iff.mp (Nat.le_zero.mp enough)
    exact iff_of_true rfl .done
  | succ fuel ih =>
    have rows := ItchMoldUdpFramer.length_fileOf_ge remaining
    rw [restarts]
    constructor
    · intro sent
      by_cases none : remaining = []
      · rw [none]
        exact .done
      · have some_messages := List.length_pos_iff.mpr none
        rw [if_neg (by omega)] at sent
        by_cases stuck : leading messages (fileOf remaining).length = []
        · rw [if_pos stuck] at sent
          exact absurd sent.symm none
        · rw [if_neg stuck, List.flatten_cons] at sent
          generalize tail : (restarts messages fuel ((fileOf remaining).length -
            (fileOf (leading messages (fileOf remaining).length)).length)).flatten = rest at sent
          have some_lead := List.length_pos_iff.mpr stuck
          have count := congrArg List.length sent
          have left : (fileOf remaining).length -
              (fileOf (leading messages (fileOf remaining).length)).length =
                (fileOf rest).length := by
            have size := congrArg (fun xs => (fileOf xs).length) sent
            simp only [ItchMoldUdpFramer.fileOf_append, List.length_append] at size
            omega
          rw [left] at tail
          rw [List.length_append] at count
          have fewer : rest.length ≤ fuel := by omega
          have later := (ih fewer).mp tail
          rw [← sent]
          exact .again stuck (by rw [sent]) later
    · intro starts
      cases starts with
      | done => rfl
      | @again lead rest some_lead repeated later =>
        have some_messages := List.length_pos_iff.mpr some_lead
        have left : (fileOf (lead ++ rest)).length - (fileOf lead).length =
            (fileOf rest).length := by
          rw [ItchMoldUdpFramer.fileOf_append, List.length_append, Nat.add_sub_cancel_left]
        rw [List.length_append] at rows enough
        rw [if_neg (by omega), repeated, if_neg some_lead, List.flatten_cons, left,
          (ih (by omega)).mpr later]

/-- The producer sends the messages of a file, each once and in order, exactly if behind
every datagram the file starts over. -/
theorem sends_file_iff {messages : List (List UInt8)} (packable : Packable 1400 messages) :
    received (datagrams (fileOf messages) 0 0) = messages ↔ StartsOver messages messages := by
  have rows := ItchMoldUdpFramer.length_fileOf_ge messages
  have unlimited : ¬ (0 < (0 : UInt64)) := by decide
  simp only [datagrams, unlimited, false_and, if_false]
  rw [received_loop packable, Nat.sub_zero, restarts_iff (by omega)]

theorem fitting_all (messages : List (List UInt8)) :
    fitting (fileOf messages).length messages = messages := by
  induction messages with
  | nil => rfl
  | cons message rest ih =>
    rw [fitting, ItchMoldUdpFramer.fileOf_cons, List.length_append, length_encode,
      if_pos (Nat.le_add_right _ _), Nat.add_sub_cancel_left, ih]

/-- A file that fits one datagram is sent as it is. -/
theorem startsOver_of_one (one : nextMessages 16 1400 messages = messages) :
    StartsOver messages messages := by
  by_cases none : messages = []
  · rw [none]
    exact .done
  · have repeated : leading messages (fileOf (messages ++ [])).length = messages := by
      rw [List.append_nil, leading, fitting_all, one]
    have starts : StartsOver messages (messages ++ []) := .again none repeated .done
    rwa [List.append_nil] at starts

theorem sends_file_of_two :
    received (datagrams (fileOf [[1, 2], [3]]) 0 0) = [[1, 2], [3]] :=
  (sends_file_iff (by simp [Packable])).mpr (startsOver_of_one (by decide))

/-- Seventeen different messages of one byte: the second datagram holds the first of them
once more, and the last is never sent. -/
theorem seventeenth_message_unsent :
    let messages := (List.range 17).map fun i => [UInt8.ofNat i]
    Packable 1400 messages ∧
      received (datagrams (fileOf messages) 0 0) = messages.take 16 ++ [[0]] ∧
      received (datagrams (fileOf messages) 0 0) ≠ messages := by
  refine ⟨?_, by decide +kernel, by decide +kernel⟩
  intro message held
  obtain ⟨i, _, rfl⟩ := List.mem_map.mp held
  exact ⟨List.cons_ne_nil _ _, by simp, by simp⟩

end ItchProducer
end FeedHandler
