import FeedHandler.Proto.Mdp3Reads
import Mathlib.Algebra.BigOperators.Group.List.Basic

/-! MDP3 packets compose: a packet of several messages gives the events of its messages
one after another, and its counters grow by the sum of what each of them adds. -/
namespace FeedHandler
namespace Mdp3

attribute [ext] ParseStats

namespace ParseStats

instance : Zero ParseStats := ⟨{}⟩

instance : Add ParseStats where
  add a b :=
    { templateCounts := fun template => a.templateCounts template + b.templateCounts template
      parsedMessages := a.parsedMessages + b.parsedMessages
      malformedMessages := a.malformedMessages + b.malformedMessages
      bookEventsEmitted := a.bookEventsEmitted + b.bookEventsEmitted }

/-- Counters add up, modulo `2 ^ 64` as they count. -/
instance : AddMonoid ParseStats where
  add_assoc a b c := ParseStats.ext (funext fun _ => UInt64.add_assoc _ _ _)
    (UInt64.add_assoc _ _ _) (UInt64.add_assoc _ _ _) (UInt64.add_assoc _ _ _)
  zero_add a := ParseStats.ext (funext fun _ => UInt64.zero_add _)
    (UInt64.zero_add _) (UInt64.zero_add _) (UInt64.zero_add _)
  add_zero a := ParseStats.ext (funext fun _ => UInt64.add_zero _)
    (UInt64.add_zero _) (UInt64.add_zero _) (UInt64.add_zero _)
  nsmul := nsmulRec

theorem malformed_add (a b : ParseStats) : (a + b).malformed = a + b.malformed :=
  ParseStats.ext rfl rfl (UInt64.add_assoc _ _ _) rfl

theorem emitted_add (a b : ParseStats) : (a + b).emitted = a + b.emitted :=
  ParseStats.ext rfl rfl rfl (UInt64.add_assoc _ _ _)

@[simp] theorem add_templateCounts (a b : ParseStats) (template : UInt8) :
    (a + b).templateCounts template = a.templateCounts template + b.templateCounts template := rfl

theorem parsed_add (a b : ParseStats) (templateId : UInt16) :
    (a + b).parsed templateId = a + b.parsed templateId := by
  refine ParseStats.ext (funext fun template => ?_) (UInt64.add_assoc _ _ _) rfl rfl
  by_cases here : template = templateId.toUInt8
  · subst here
    simp [parsed, UInt64.add_assoc]
  · simp [parsed, Function.update_of_ne here]

end ParseStats

/-- A message whose size field says how long it is. -/
structure WholeMessage (m : List UInt8) : Prop where
  header : 10 ≤ m.length
  small : m.length < 2 ^ 16
  size : readLe m 0 2 = m.length

/-- Nothing starts with a whole message here. -/
def NoMessage (tail : List UInt8) : Prop := ¬ ∃ m rest, WholeMessage m ∧ tail = m ++ rest

/-- What a packet adds to the counters. -/
def statsIncrement (udpPayload : List UInt8) (ingestTsNs : UInt64) : ParseStats :=
  (parsePacket udpPayload ingestTsNs 0).2

/-- Events and counters of `later` behind those of `before`. -/
def joined (before later : List BookEvent × ParseStats) : List BookEvent × ParseStats :=
  (before.1 ++ later.1, before.2 + later.2)

section Accumulators

variable {base stats : ParseStats} {ingestTsNs : UInt64}

theorem joined_assoc (a b c : List BookEvent × ParseStats) :
    joined (joined a b) c = joined a (joined b c) := by
  simp only [joined, List.append_assoc, add_assoc]

theorem joined_empty (a : List BookEvent × ParseStats) : joined a ([], 0) = a := by
  simp only [joined, List.append_nil, add_zero]

theorem empty_joined (a : List BookEvent × ParseStats) : joined ([], 0) a = a := by
  simp only [joined, List.nil_append, zero_add]

/-- The loop over the entries only appends events and only counts up. -/
theorem parseEntries_joined (body : List UInt8) (pos blockLen : Nat)
    (event : Nat → MdEntry → BookEvent) (remaining i : Nat) (pre out : List BookEvent) :
    parseEntries body pos blockLen event remaining i (pre ++ out) (base + stats) =
      joined (pre, base) (parseEntries body pos blockLen event remaining i out stats) := by
  induction remaining generalizing i out stats with
  | zero => rfl
  | succ remaining ih =>
    simp only [parseEntries]
    split
    · rw [ParseStats.malformed_add]
      rfl
    · split
      · exact ih (i + 1) out
      · rw [List.append_assoc, ParseStats.emitted_add]
        exact ih (i + 1) _

theorem parseBook_joined (body : List UInt8) (packetSeq transactTimeNs : UInt64) :
    parseIncrementalRefreshBook32 body packetSeq transactTimeNs ingestTsNs (base + stats) =
      joined ([], base)
        (parseIncrementalRefreshBook32 body packetSeq transactTimeNs ingestTsNs stats) := by
  simp only [parseIncrementalRefreshBook32, ParseStats.malformed_add]
  split
  · rfl
  · split
    · rfl
    · split
      · rfl
      · exact parseEntries_joined body 14 _ _ _ 0 [] []

theorem parseMessages_joined (header : MdpPacketHeader) (fuel : Nat) (rest : List UInt8)
    (pre out : List BookEvent) :
    parseMessages header ingestTsNs fuel rest (pre ++ out) (base + stats) =
      joined (pre, base) (parseMessages header ingestTsNs fuel rest out stats) := by
  induction fuel generalizing rest out stats with
  | zero => rfl
  | succ fuel ih =>
    simp only [parseMessages]
    split
    · rfl
    · cases decodeSbeHeader rest with
      | none =>
        simp only [ParseStats.malformed_add]
        rfl
      | some hdr =>
        simp only [ParseStats.parsed_add, parseBook_joined]
        split
        · simp only [joined, List.nil_append, List.append_assoc]
          exact ih _ _
        · exact ih _ _

theorem parsePacket_joined (udpPayload : List UInt8) :
    parsePacket udpPayload ingestTsNs (base + stats) =
      joined ([], base) (parsePacket udpPayload ingestTsNs stats) := by
  simp only [parsePacket]
  cases decodeMdpPacketHeader udpPayload with
  | none =>
    simp only [ParseStats.malformed_add]
    rfl
  | some header => exact parseMessages_joined header _ _ [] []

/-- Events do not depend on the counters, nor does what is added to these. -/
theorem parsePacket_eq (udpPayload : List UInt8) :
    parsePacket udpPayload ingestTsNs stats =
      ((parsePacket udpPayload ingestTsNs 0).1, stats + statsIncrement udpPayload ingestTsNs) := by
  conv_lhs => rw [← add_zero stats]
  exact parsePacket_joined udpPayload

/-- More fuel than bytes makes no difference. -/
theorem parseMessages_fuel (header : MdpPacketHeader) (fuel steps : Nat) (rest : List UInt8)
    (out : List BookEvent) (enough : rest.length ≤ fuel) (covers : rest.length ≤ steps) :
    parseMessages header ingestTsNs fuel rest out stats =
      parseMessages header ingestTsNs steps rest out stats := by
  induction fuel generalizing steps rest out stats with
  | zero =>
    cases steps with
    | zero => rfl
    | succ steps => rw [parseMessages, parseMessages, if_pos (by omega)]
  | succ fuel ih =>
    cases steps with
    | zero => rw [parseMessages, parseMessages, if_pos (by omega)]
    | succ steps =>
      simp only [parseMessages]
      split
      · rfl
      · cases decoded : decodeSbeHeader rest with
        | none => rfl
        | some hdr =>
          obtain ⟨-, least, fits⟩ := decodeSbeHeader_sized decoded
          have shorter : (rest.drop hdr.msgSize.toNat).length ≤ rest.length - 10 := by
            rw [List.length_drop]
            omega
          simp only
          split
          · exact ih _ _ _ (by omega) (by omega)
          · exact ih _ _ _ (by omega) (by omega)

end Accumulators

section Messages

variable {m rest tail : List UInt8} {off width : Nat} {ingestTsNs : UInt64}

theorem readLe_append (within : off + width ≤ m.length) :
    readLe (m ++ rest) off width = readLe m off width := by
  have grown : off + width ≤ (m ++ rest).length := by
    rw [List.length_append]
    omega
  rw [readLe, readLe, if_pos within, if_pos grown, LittleEndian.readAt, LittleEndian.readAt,
    List.drop_append_of_le_length (by omega),
    List.take_append_of_le_length (by rw [List.length_drop]; omega)]

/-- The header of a whole message is read as it stands, whatever follows. -/
theorem WholeMessage.decode (whole : WholeMessage m) :
    ∃ hdr, hdr.msgSize.toNat = m.length ∧
      ∀ rest, decodeSbeHeader (m ++ rest) = some hdr := by
  obtain ⟨header, small, size⟩ := whole
  refine ⟨⟨UInt16.ofNat (readLe m 0 2), UInt16.ofNat (readLe m 2 2), UInt16.ofNat (readLe m 4 2),
    UInt16.ofNat (readLe m 6 2), UInt16.ofNat (readLe m 8 2)⟩, ?_, fun rest => ?_⟩
  · rw [size]
    exact UInt16.toNat_ofNat_of_lt' small
  · have back : (UInt16.ofNat m.length).toNat = m.length := UInt16.toNat_ofNat_of_lt' small
    have fits : ¬ (UInt16.ofNat m.length < 10 ∨
        (UInt16.ofNat m.length).toNat > (m ++ rest).length) := by
      rw [UInt16.lt_iff_toNat_lt, back, List.length_append, show (10 : UInt16).toNat = 10 from rfl]
      omega
    have long : ¬ (m ++ rest).length < 10 := by
      rw [List.length_append]
      omega
    simp only [decodeSbeHeader]
    rw [if_neg long, readLe_append (by omega), readLe_append (by omega), readLe_append (by omega),
      readLe_append (by omega), readLe_append (by omega), size, if_neg fits]

/-- A header that is accepted stands in front of a whole message. -/
theorem whole_of_decode {hdr : SbeMessageHeader} (decoded : decodeSbeHeader tail = some hdr) :
    ∃ m rest, WholeMessage m ∧ tail = m ++ rest := by
  obtain ⟨field, least, fits⟩ := decodeSbeHeader_sized decoded
  have length : (tail.take hdr.msgSize.toNat).length = hdr.msgSize.toNat := by
    rw [List.length_take, Nat.min_eq_left fits]
  have same : readLe tail 0 2 = readLe (tail.take hdr.msgSize.toNat) 0 2 := by
    conv_lhs => rw [← List.take_append_drop hdr.msgSize.toNat tail]
    exact readLe_append (by omega)
  refine ⟨tail.take hdr.msgSize.toNat, tail.drop hdr.msgSize.toNat, ⟨?_, ?_, ?_⟩,
    (List.take_append_drop _ _).symm⟩
  · rwa [length]
  · rw [length]
    exact hdr.msgSize.toNat_lt
  · rw [← same, ← field, length]

/-- One round of the loop takes a whole message and does with it what it does with the
message alone. -/
theorem parseMessages_message (whole : WholeMessage m) (header : MdpPacketHeader) (fuel : Nat)
    (rest : List UInt8) (out : List BookEvent) (stats : ParseStats) :
    parseMessages header ingestTsNs (fuel + 1) (m ++ rest) out stats =
      parseMessages header ingestTsNs fuel rest
        (parseMessages header ingestTsNs 1 m out stats).1
        (parseMessages header ingestTsNs 1 m out stats).2 := by
  obtain ⟨hdr, size, decoded⟩ := whole.decode
  have alone := decoded []
  rw [List.append_nil] at alone
  have long : 10 ≤ m.length := whole.header
  have body : ((m ++ rest).drop 10).take (hdr.msgSize.toNat - 10) =
      (m.drop 10).take (hdr.msgSize.toNat - 10) := by
    rw [List.drop_append_of_le_length long,
      List.take_append_of_le_length (by rw [List.length_drop, size])]
  have next : (m ++ rest).drop hdr.msgSize.toNat = rest := by rw [size, List.drop_left]
  simp only [parseMessages]
  rw [if_neg (by rw [List.length_append]; omega), if_neg (by omega), decoded rest, alone]
  simp only [body, next]
  split
  · rfl
  · rfl

/-- The messages behind a packet header, parsed on their own. -/
def parseBehind (header : MdpPacketHeader) (ingestTsNs : UInt64) (rest : List UInt8) :
    List BookEvent × ParseStats :=
  parseMessages header ingestTsNs rest.length rest [] 0

theorem parseMessages_behind (header : MdpPacketHeader) (fuel : Nat) (rest : List UInt8)
    (enough : rest.length ≤ fuel) (out : List BookEvent) (stats : ParseStats) :
    parseMessages header ingestTsNs fuel rest out stats =
      joined (out, stats) (parseBehind header ingestTsNs rest) := by
  have framed : parseMessages header ingestTsNs fuel rest (out ++ []) (stats + 0) = _ :=
    parseMessages_joined header fuel rest out []
  rw [List.append_nil, add_zero] at framed
  rw [framed, parseBehind, parseMessages_fuel header fuel rest.length rest [] enough le_rfl]

theorem parseBehind_append (whole : WholeMessage m) (header : MdpPacketHeader)
    (rest : List UInt8) :
    parseBehind header ingestTsNs (m ++ rest) =
      joined (parseBehind header ingestTsNs m) (parseBehind header ingestTsNs rest) := by
  have long := whole.header
  have alone : parseMessages header ingestTsNs 1 m [] 0 = parseBehind header ingestTsNs m := by
    have size : m.length = m.length - 1 + 1 := by omega
    have single : parseMessages header ingestTsNs (m.length - 1 + 1) (m ++ []) [] 0 = _ :=
      parseMessages_message whole header _ [] [] 0
    rw [List.append_nil, ← size, parseMessages_behind header _ [] (Nat.zero_le _)] at single
    rw [parseBehind, single]
    exact (joined_empty _).symm
  have size : (m ++ rest).length = (m ++ rest).length - 1 + 1 := by
    rw [List.length_append]
    omega
  rw [parseBehind, size, parseMessages_message whole, alone,
    parseMessages_behind header _ rest (by rw [List.length_append]; omega)]

/-- A run of whole messages, and what follows them. -/
theorem parseBehind_flatten (header : MdpPacketHeader) (messages : List (List UInt8))
    (whole : ∀ m ∈ messages, WholeMessage m) (tail : List UInt8) :
    parseBehind header ingestTsNs (messages.flatten ++ tail) =
      joined (messages.flatMap fun m => (parseBehind header ingestTsNs m).1,
          (messages.map fun m => (parseBehind header ingestTsNs m).2).sum)
        (parseBehind header ingestTsNs tail) := by
  induction messages with
  | nil => exact (empty_joined _).symm
  | cons m messages ih =>
    have later := ih fun other listed => whole other (List.mem_cons_of_mem m listed)
    rw [List.flatten_cons, List.append_assoc, parseBehind_append (whole m List.mem_cons_self),
      later, ← joined_assoc]
    rfl

theorem parseBehind_messages (header : MdpPacketHeader) (messages : List (List UInt8))
    (whole : ∀ m ∈ messages, WholeMessage m) :
    parseBehind header ingestTsNs messages.flatten =
      (messages.flatMap fun m => (parseBehind header ingestTsNs m).1,
        (messages.map fun m => (parseBehind header ingestTsNs m).2).sum) := by
  have run : parseBehind header ingestTsNs (messages.flatten ++ []) = _ :=
    parseBehind_flatten header messages whole []
  have nothing : parseBehind header ingestTsNs [] = ([], 0) := rfl
  rwa [List.append_nil, nothing, joined_empty] at run

/-- Where no message starts, nothing becomes an event. -/
theorem parseBehind_tail (no : NoMessage tail) (header : MdpPacketHeader) :
    (parseBehind header ingestTsNs tail).1 = [] := by
  rw [parseBehind]
  cases tail.length with
  | zero => rfl
  | succ fuel =>
    simp only [parseMessages]
    split
    · rfl
    · next long =>
      cases decoded : decodeSbeHeader tail with
      | none => rfl
      | some hdr => exact absurd (whole_of_decode decoded) no

/-- Every byte string is a run of whole messages and something where none starts. -/
theorem exists_messages (bytes : List UInt8) :
    ∃ (messages : List (List UInt8)) (tail : List UInt8), bytes = messages.flatten ++ tail ∧
      (∀ m ∈ messages, WholeMessage m) ∧ NoMessage tail := by
  by_cases starts : ∃ m rest, WholeMessage m ∧ bytes = m ++ rest
  · obtain ⟨m, rest, whole, same⟩ := starts
    have shorter : rest.length < bytes.length := by
      have long := whole.header
      rw [same, List.length_append]
      omega
    obtain ⟨messages, tail, split, wholes, no⟩ := exists_messages rest
    refine ⟨m :: messages, tail, ?_, ?_, no⟩
    · rw [same, split, List.flatten_cons, List.append_assoc]
    · intro other listed
      cases List.mem_cons.mp listed with
      | inl first => rwa [first]
      | inr later => exact wholes other later
  · exact ⟨[], bytes, rfl, fun m listed => absurd listed List.not_mem_nil, starts⟩
termination_by bytes.length

/-- The packet header alone decides what is added to the events of its messages. -/
theorem parsePacket_behind {header : List UInt8} (size : header.length = 12) :
    ∃ decoded : MdpPacketHeader, ∀ rest ingestTsNs stats,
      parsePacket (header ++ rest) ingestTsNs stats =
        joined ([], stats) (parseBehind decoded ingestTsNs rest) := by
  refine ⟨⟨UInt32.ofNat (readLe header 0 4), UInt64.ofNat (readLe header 4 8)⟩, ?_⟩
  intro rest ingestTsNs stats
  have long : ¬ (header ++ rest).length < 12 := by
    rw [List.length_append]
    omega
  simp only [parsePacket, decodeMdpPacketHeader]
  rw [if_neg long, readLe_append (by omega), readLe_append (by omega)]
  simp only
  rw [List.drop_left' size, parseMessages_behind _ _ _ (by rw [List.length_append]; omega)]

end Messages

/-- The parser reads nothing outside the payload and ends, its results do not depend on the
counters it finds, a packet of whole messages gives what the packets of the single messages
give, and behind the last whole message of a packet nothing becomes an event. -/
theorem packet_parsing_composes (ingestTsNs : UInt64) (stats : ParseStats) :
    (∀ payload, parsePacketReads payload ingestTsNs stats =
      some (parsePacket payload ingestTsNs stats)) ∧
    (∀ payload, (parsePacket payload ingestTsNs stats).2 =
      stats + statsIncrement payload ingestTsNs) ∧
    (∀ (header : List UInt8) (messages : List (List UInt8)), header.length = 12 →
      (∀ m ∈ messages, WholeMessage m) →
      (parsePacket (header ++ messages.flatten) ingestTsNs stats).1 =
          messages.flatMap (fun m => (parsePacket (header ++ m) ingestTsNs stats).1) ∧
        statsIncrement (header ++ messages.flatten) ingestTsNs =
          (messages.map fun m => statsIncrement (header ++ m) ingestTsNs).sum) ∧
    (∀ payload : List UInt8, 12 ≤ payload.length →
      ∃ (header : List UInt8) (messages : List (List UInt8)) (tail : List UInt8),
        payload = header ++ messages.flatten ++ tail ∧ header.length = 12 ∧
          (∀ m ∈ messages, WholeMessage m) ∧ NoMessage tail) ∧
    ∀ (header : List UInt8) (messages : List (List UInt8)) (tail : List UInt8),
      header.length = 12 → (∀ m ∈ messages, WholeMessage m) → NoMessage tail →
      (parsePacket (header ++ messages.flatten ++ tail) ingestTsNs stats).1 =
        (parsePacket (header ++ messages.flatten) ingestTsNs stats).1 := by
  refine ⟨fun payload => parsePacketReads_eq payload ingestTsNs stats,
    fun payload => congrArg Prod.snd (parsePacket_eq payload), ?_, ?_, ?_⟩
  · intro header messages size whole
    obtain ⟨decoded, behind⟩ := parsePacket_behind size
    simp only [statsIncrement, behind, parseBehind_messages decoded messages whole, joined,
      List.nil_append, zero_add, and_self]
  · intro payload long
    obtain ⟨messages, tail, split, whole, no⟩ := exists_messages (payload.drop 12)
    refine ⟨payload.take 12, messages, tail, ?_, by rw [List.length_take]; omega, whole, no⟩
    rw [List.append_assoc, ← split, List.take_append_drop]
  · intro header messages tail size whole no
    obtain ⟨decoded, behind⟩ := parsePacket_behind size
    rw [List.append_assoc, behind, behind, parseBehind_flatten decoded messages whole,
      parseBehind_messages decoded messages whole]
    simp only [joined, parseBehind_tail no decoded, List.append_nil]

/-- A message with one entry to be added. -/
def bookMessage : List UInt8 :=
  [56, 0, 11, 0, 32, 0, 1, 0, 9, 0] ++ List.replicate 11 0 ++ [32, 0, 1] ++ List.replicate 32 0

theorem packet_parsing_composes_two_messages :
    (parsePacket (List.replicate 12 0 ++ [bookMessage, bookMessage].flatten) 0 0).1 =
        [bookMessage, bookMessage].flatMap
          (fun m => (parsePacket (List.replicate 12 0 ++ m) 0 0).1) ∧
      statsIncrement (List.replicate 12 0 ++ [bookMessage, bookMessage].flatten) 0 =
        ([bookMessage, bookMessage].map
          fun m => statsIncrement (List.replicate 12 0 ++ m) 0).sum := by
  have whole : WholeMessage bookMessage := ⟨by decide, by decide, by decide⟩
  refine (packet_parsing_composes 0 0).2.2.1 (List.replicate 12 0) [bookMessage, bookMessage]
    (by decide) ?_
  simpa using whole

end Mdp3
end FeedHandler
