import FeedHandler.Lib.ByteSpan
import FeedHandler.Proto.Mdp3

/-! The reads of the MDP3 parser. The parser is written once more over views into the
payload, with loops that count as the source's do: an index or a part outside its view has
no result, nor has a loop that does not end. The parser always has a result. -/
namespace FeedHandler
namespace Mdp3

variable {payload : List UInt8}

/-- `read_le`, its guard in front of the copy. -/
def readLeReads (data : ByteSpan payload) (off width : Nat) : Option Nat :=
  if off + width ≤ data.size then (data.load off width).map LittleEndian.ofBytes else some 0

def decodeSbeHeaderReads (msg : ByteSpan payload) : Option (Option SbeMessageHeader) :=
  if msg.size < 10 then some none
  else do
    let msgSize ← readLeReads msg 0 2
    let blockLength ← readLeReads msg 2 2
    let templateId ← readLeReads msg 4 2
    let schemaId ← readLeReads msg 6 2
    let version ← readLeReads msg 8 2
    let out : SbeMessageHeader :=
      { msgSize := UInt16.ofNat msgSize
        blockLength := UInt16.ofNat blockLength
        templateId := UInt16.ofNat templateId
        schemaId := UInt16.ofNat schemaId
        version := UInt16.ofNat version }
    return if out.msgSize < 10 ∨ out.msgSize.toNat > msg.size then none else some out

def decodeMdpPacketHeaderReads (packet : ByteSpan payload) : Option (Option MdpPacketHeader) :=
  if packet.size < 12 then some none
  else do
    let msgSeqNum ← readLeReads packet 0 4
    let sendingTime ← readLeReads packet 4 8
    return some { msgSeqNum := UInt32.ofNat msgSeqNum, sendingTime := UInt64.ofNat sendingTime }

def readEntryReads (body : ByteSpan payload) (eoff : Nat) : Option MdEntry := do
  let pxMantissa ← readLeReads body eoff 8
  let entrySize ← readLeReads body (eoff + 8) 4
  let securityId ← readLeReads body (eoff + 12) 4
  let rptSeq ← readLeReads body (eoff + 16) 4
  let updateAction ← body.byteAt (eoff + 25)
  let entryType ← body.byteAt (eoff + 26)
  return {
    pxMantissa := (UInt64.ofNat pxMantissa).toInt64
    entrySize := (UInt32.ofNat entrySize).toInt32
    securityId := (UInt32.ofNat securityId).toInt32
    rptSeq := UInt32.ofNat rptSeq
    updateAction := updateAction
    entryType := entryType }

/-- The loop over the entries, with its counter of eight bits. -/
def parseEntriesReads (body : ByteSpan payload) (pos entryBlockLen : Nat) (entryCount : UInt8)
    (event : Nat → MdEntry → BookEvent) :
    Nat → UInt8 → List BookEvent → ParseStats → Option (List BookEvent × ParseStats)
  | 0, _, _, _ => none
  | fuel + 1, i, out, stats =>
    if i < entryCount then
      let eoff := pos + i.toNat * entryBlockLen
      if eoff + 32 > body.size then some (out, stats.malformed)
      else do
        let entry ← readEntryReads body eoff
        if entry.entryType = 'J'.toUInt8 then
          parseEntriesReads body pos entryBlockLen entryCount event fuel (i + 1) out stats
        else
          parseEntriesReads body pos entryBlockLen entryCount event fuel (i + 1)
            (out ++ [event i.toNat entry]) stats.emitted
    else some (out, stats)

def parseBookReads (body : ByteSpan payload) (packetSeq transactTimeNs ingestTsNs : UInt64)
    (stats : ParseStats) : Option (List BookEvent × ParseStats) :=
  if body.size < 11 then some ([], stats.malformed)
  else do
    let transactTime ← readLeReads body 0 8
    let exchangeTs :=
      if UInt64.ofNat transactTime ≠ 0 then UInt64.ofNat transactTime else transactTimeNs
    if 11 + 3 > body.size then return ([], stats.malformed)
    else
      let entryBlockLen ← readLeReads body 11 2
      let entryCount ← body.byteAt (11 + 2)
      if entryBlockLen < 32 ∨ 14 + entryCount.toNat * entryBlockLen > body.size then
        return ([], stats.malformed)
      else
        parseEntriesReads body 14 entryBlockLen entryCount
          (entryEvent packetSeq exchangeTs ingestTsNs) 256 0 [] stats

/-- The loop over the messages, from position `pos` of the payload on. -/
def parseMessagesReads (payload : List UInt8) (header : MdpPacketHeader) (ingestTsNs : UInt64) :
    Nat → Nat → List BookEvent → ParseStats → Option (List BookEvent × ParseStats)
  | 0, _, _, _ => none
  | fuel + 1, pos, out, stats =>
    if pos + 10 ≤ payload.length then do
      let msg ← (ByteSpan.full payload).subspan pos (payload.length - pos)
      match ← decodeSbeHeaderReads msg with
      | none => return (out, stats.malformed)
      | some hdr =>
        let stats := stats.parsed hdr.templateId
        let body ← msg.subspan 10 (hdr.msgSize.toNat - 10)
        if hdr.templateId = kTemplateMdIncrementalRefreshBook32 then
          let parsed ← parseBookReads body header.msgSeqNum.toUInt64 header.sendingTime
            ingestTsNs stats
          parseMessagesReads payload header ingestTsNs fuel (pos + hdr.msgSize.toNat)
            (out ++ parsed.1) parsed.2
        else
          parseMessagesReads payload header ingestTsNs fuel (pos + hdr.msgSize.toNat) out stats
    else some (out, stats)

def parsePacketReads (payload : List UInt8) (ingestTsNs : UInt64) (stats : ParseStats) :
    Option (List BookEvent × ParseStats) := do
  match ← decodeMdpPacketHeaderReads (ByteSpan.full payload) with
  | none => return ([], stats.malformed)
  | some header => parseMessagesReads payload header ingestTsNs (payload.length + 1) 12 [] stats

theorem readLeReads_eq (data : ByteSpan payload) (off width : Nat) :
    readLeReads data off width = some (readLe data.bytes off width) := by
  rw [readLeReads, readLe, ByteSpan.length_bytes]
  split
  · next fits =>
    rw [data.load_eq fits]
    rfl
  · rfl

theorem decodeSbeHeaderReads_eq (msg : ByteSpan payload) :
    decodeSbeHeaderReads msg = some (decodeSbeHeader msg.bytes) := by
  simp only [decodeSbeHeaderReads, decodeSbeHeader, ByteSpan.length_bytes, readLeReads_eq]
  split
  · rfl
  · rfl

theorem decodeMdpPacketHeaderReads_eq (packet : ByteSpan payload) :
    decodeMdpPacketHeaderReads packet = some (decodeMdpPacketHeader packet.bytes) := by
  simp only [decodeMdpPacketHeaderReads, decodeMdpPacketHeader, ByteSpan.length_bytes,
    readLeReads_eq]
  split
  · rfl
  · rfl

/-- The two unguarded reads of an entry lie in front of its end. -/
theorem readEntryReads_eq (body : ByteSpan payload) {eoff : Nat} (fits : eoff + 32 ≤ body.size) :
    readEntryReads body eoff = some (readEntry body.bytes eoff) := by
  rw [readEntryReads, body.byteAt_eq (show eoff + 25 < body.size by omega),
    body.byteAt_eq (show eoff + 26 < body.size by omega)]
  simp only [readLeReads_eq]
  rfl

/-- The loop ends after as many rounds as its counter is short of the count. -/
theorem parseEntriesReads_eq (body : ByteSpan payload) (pos entryBlockLen : Nat)
    (entryCount : UInt8) (event : Nat → MdEntry → BookEvent) (fuel remaining : Nat) (i : UInt8)
    (left : i.toNat + remaining = entryCount.toNat) (enough : remaining < fuel)
    (out : List BookEvent) (stats : ParseStats) :
    parseEntriesReads body pos entryBlockLen entryCount event fuel i out stats =
      some (parseEntries body.bytes pos entryBlockLen event remaining i.toNat out stats) := by
  induction fuel generalizing remaining i out stats with
  | zero => exact absurd enough (Nat.not_lt_zero _)
  | succ fuel ih =>
    cases remaining with
    | zero =>
      have done : ¬ i < entryCount := by
        rw [UInt8.lt_iff_toNat_lt]
        omega
      rw [parseEntriesReads, if_neg done]
      rfl
    | succ remaining =>
      have more : i < entryCount := by
        rw [UInt8.lt_iff_toNat_lt]
        omega
      have next : (i + 1).toNat = i.toNat + 1 := by
        have small := entryCount.toNat_lt
        rw [UInt8.toNat_add, show (1 : UInt8).toNat = 1 from rfl]
        omega
      simp only [parseEntriesReads, parseEntries, if_pos more, ByteSpan.length_bytes]
      split
      · rfl
      · next fits =>
        rw [readEntryReads_eq body (Nat.le_of_not_gt fits), ← next]
        simp only [Option.bind_eq_bind, Option.bind_some]
        split
        · exact ih remaining (i + 1) (by omega) (by omega) _ _
        · exact ih remaining (i + 1) (by omega) (by omega) _ _

theorem parseBookReads_eq (body : ByteSpan payload)
    (packetSeq transactTimeNs ingestTsNs : UInt64) (stats : ParseStats) :
    parseBookReads body packetSeq transactTimeNs ingestTsNs stats =
      some (parseIncrementalRefreshBook32 body.bytes packetSeq transactTimeNs ingestTsNs
        stats) := by
  simp only [parseBookReads, parseIncrementalRefreshBook32, ByteSpan.length_bytes, readLeReads_eq,
    Option.bind_eq_bind, Option.bind_some]
  split
  · rfl
  · split
    · rfl
    · next long =>
      rw [body.byteAt_eq (show 11 + 2 < body.size by omega)]
      simp only [Option.bind_some]
      by_cases bad : entryBlockLen body.bytes < 32 ∨
          14 + entryCount body.bytes * entryBlockLen body.bytes > body.size
      · rw [if_pos bad]
        exact if_pos bad
      · have small : entryCount body.bytes < 256 := (body.bytes.getD 13 0).toNat_lt
        rw [if_neg bad]
        exact (if_neg bad).trans
          (parseEntriesReads_eq body 14 _ _ _ 256 _ 0 (Nat.zero_add _) small [] stats)

theorem readLe_lt (data : List UInt8) (off width : Nat) : readLe data off width < 256 ^ width := by
  rw [readLe]
  split
  · have bound := LittleEndian.ofBytes_lt ((data.drop off).take width)
    exact bound.trans_le (Nat.pow_le_pow_right (by decide) (List.length_take_le _ _))
  · exact Nat.pow_pos (by decide)

/-- The size field of an accepted header names a part of the message. -/
theorem decodeSbeHeader_sized {msg : List UInt8} {hdr : SbeMessageHeader}
    (decoded : decodeSbeHeader msg = some hdr) :
    hdr.msgSize.toNat = readLe msg 0 2 ∧ 10 ≤ hdr.msgSize.toNat ∧
      hdr.msgSize.toNat ≤ msg.length := by
  simp only [decodeSbeHeader] at decoded
  split at decoded
  · cases decoded
  · split at decoded
    · cases decoded
    · next sized =>
      obtain rfl := Option.some.inj decoded
      rw [not_or, UInt16.lt_iff_toNat_lt] at sized
      exact ⟨UInt16.toNat_ofNat_of_lt' (readLe_lt msg 0 2), Nat.le_of_not_lt sized.1,
        Nat.le_of_not_lt sized.2⟩

/-- Each message takes at least ten bytes, so the loop ends before the fuel does. -/
theorem parseMessagesReads_eq (header : MdpPacketHeader) (ingestTsNs : UInt64)
    (fuel steps pos : Nat) (within : pos ≤ payload.length) (enough : payload.length - pos < fuel)
    (covers : payload.length - pos ≤ steps) (out : List BookEvent) (stats : ParseStats) :
    parseMessagesReads payload header ingestTsNs fuel pos out stats =
      some (parseMessages header ingestTsNs steps (payload.drop pos) out stats) := by
  induction fuel generalizing steps pos out stats with
  | zero => exact absurd enough (Nat.not_lt_zero _)
  | succ fuel ih =>
    have size : (payload.drop pos).length = payload.length - pos := List.length_drop
    by_cases more : pos + 10 ≤ payload.length
    · cases steps with
      | zero => omega
      | succ steps =>
        obtain ⟨msg, taken, shown⟩ := (ByteSpan.full payload).subspan_eq
          (show pos + (payload.length - pos) ≤ (ByteSpan.full payload).size by
            simp only [ByteSpan.full]
            omega)
        rw [ByteSpan.bytes_full, ← size, List.take_length] at shown
        have msgSize := msg.length_bytes
        rw [shown] at msgSize
        simp only [parseMessagesReads, parseMessages]
        rw [if_pos more, if_neg (by omega), taken]
        simp only [Option.bind_eq_bind, Option.bind_some, decodeSbeHeaderReads_eq, shown]
        cases decoded : decodeSbeHeader (payload.drop pos) with
        | none => rfl
        | some hdr =>
          obtain ⟨-, least, fits⟩ := decodeSbeHeader_sized decoded
          obtain ⟨body, cut, bodyShown⟩ := msg.subspan_eq
            (show 10 + (hdr.msgSize.toNat - 10) ≤ msg.size by omega)
          rw [shown] at bodyShown
          simp only [cut, Option.bind_some, parseBookReads_eq, bodyShown, List.drop_drop]
          split
          · exact ih steps _ (by omega) (by omega) (by omega) _ _
          · exact ih steps _ (by omega) (by omega) (by omega) _ _
    · have short : (payload.drop pos).length < 10 := by omega
      simp only [parseMessagesReads]
      rw [if_neg more]
      cases steps with
      | zero => rfl
      | succ steps => simp only [parseMessages, if_pos short]

/-- The parser has a result on every byte string: its loops end, and it reads and cuts
nothing outside the payload. -/
theorem parsePacketReads_eq (payload : List UInt8) (ingestTsNs : UInt64) (stats : ParseStats) :
    parsePacketReads payload ingestTsNs stats = some (parsePacket payload ingestTsNs stats) := by
  simp only [parsePacketReads, parsePacket, decodeMdpPacketHeaderReads_eq, ByteSpan.bytes_full,
    Option.bind_eq_bind, Option.bind_some]
  cases decoded : decodeMdpPacketHeader payload with
  | none => rfl
  | some header =>
    have long : 12 ≤ payload.length := by
      by_contra short
      rw [decodeMdpPacketHeader, if_pos (Nat.lt_of_not_le short)] at decoded
      cases decoded
    exact parseMessagesReads_eq header ingestTsNs _ _ 12 long (by omega) (by omega) [] stats

end Mdp3
end FeedHandler
