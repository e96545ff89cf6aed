import FeedHandler.Core.Types
import FeedHandler.Lib.LittleEndian
import Mathlib.Data.Nat.Digits.Defs

/-! The CME MDP3 parser: a packet header, then messages behind simple binary encoding
headers. Only incremental refreshes of the 32-bit book become events, one for each entry
of their repeating group. -/
namespace FeedHandler
namespace Mdp3

structure ParseStats where
  templateCounts : UInt8 → UInt64 := fun _ => 0
  parsedMessages : UInt64 := 0
  malformedMessages : UInt64 := 0
  bookEventsEmitted : UInt64 := 0

namespace ParseStats

def malformed (stats : ParseStats) : ParseStats :=
  { stats with malformedMessages := stats.malformedMessages + 1 }

def parsed (stats : ParseStats) (templateId : UInt16) : ParseStats :=
  { stats with
    templateCounts := Function.update stats.templateCounts templateId.toUInt8
      (stats.templateCounts templateId.toUInt8 + 1)
    parsedMessages := stats.parsedMessages + 1 }

def emitted (stats : ParseStats) : ParseStats :=
  { stats with bookEventsEmitted := stats.bookEventsEmitted + 1 }

end ParseStats

def kTemplateMdIncrementalRefreshBook32 : UInt16 := 32

/-- A little-endian field, zero where the data ends before it does. -/
def readLe (data : List UInt8) (off width : Nat) : Nat :=
  if off + width ≤ data.length then LittleEndian.readAt data off width else 0

structure SbeMessageHeader where
  msgSize : UInt16
  blockLength : UInt16
  templateId : UInt16
  schemaId : UInt16
  version : UInt16

structure MdpPacketHeader where
  msgSeqNum : UInt32
  sendingTime : UInt64

def decodeSbeHeader (msg : List UInt8) : Option SbeMessageHeader :=
  if msg.length < 10 then none
  else
    let out : SbeMessageHeader :=
      { msgSize := UInt16.ofNat (readLe msg 0 2)
        blockLength := UInt16.ofNat (readLe msg 2 2)
        templateId := UInt16.ofNat (readLe msg 4 2)
        schemaId := UInt16.ofNat (readLe msg 6 2)
        version := UInt16.ofNat (readLe msg 8 2) }
    if out.msgSize < 10 ∨ out.msgSize.toNat > msg.length then none else some out

def decodeMdpPacketHeader (packet : List UInt8) : Option MdpPacketHeader :=
  if packet.length < 12 then none
  else
    some { msgSeqNum := UInt32.ofNat (readLe packet 0 4)
           sendingTime := UInt64.ofNat (readLe packet 4 8) }

/-- The decimal digits of a number in ASCII, as `%d` prints them. -/
def decimal (n : Int) : List UInt8 :=
  (if n < 0 then ['-'.toUInt8] else []) ++
    (if n = 0 then [0] else (Nat.digits 10 n.natAbs).reverse).map
      fun digit => UInt8.ofNat ('0'.toNat + digit)

/-- The first eight characters of the id, padded with blanks. -/
def securityIdToSymbol (securityId : Int32) : SymbolKey :=
  if securityId = Int32.minValue then ⟨Vector.replicate 8 ' '.toUInt8⟩
  else ⟨Vector.ofFn fun i => (decimal securityId.toInt).getD i ' '.toUInt8⟩

/-- From a price with nine decimals to ticks of a hundredth of a cent. -/
def price9MantissaToTick (mantissa : Int64) : UInt32 :=
  if mantissa = Int64.minValue then 0
  else
    let ticks := mantissa / 100000
    if ticks ≤ 0 then 0 else UInt32.ofNat (min ticks.toInt.toNat (2 ^ 32 - 1))

def entryTypeToSide (entryType : UInt8) : Side :=
  if entryType = '0'.toUInt8 then .buy
  else if entryType = '1'.toUInt8 then .sell
  else .unknown

def updateActionToEventType (action : UInt8) : EventType :=
  if action = 0 then .add
  else if action = 1 then .replace
  else if action = 2 ∨ action = 3 ∨ action = 4 then .delete
  else .unknown

/-- The fields of one entry of the repeating group that the parser looks at. -/
structure MdEntry where
  pxMantissa : Int64
  entrySize : Int32
  securityId : Int32
  rptSeq : UInt32
  updateAction : UInt8
  entryType : UInt8
  deriving DecidableEq, Repr

def readEntry (body : List UInt8) (eoff : Nat) : MdEntry where
  pxMantissa := (UInt64.ofNat (readLe body eoff 8)).toInt64
  entrySize := (UInt32.ofNat (readLe body (eoff + 8) 4)).toInt32
  securityId := (UInt32.ofNat (readLe body (eoff + 12) 4)).toInt32
  rptSeq := UInt32.ofNat (readLe body (eoff + 16) 4)
  updateAction := body.getD (eoff + 25) 0
  entryType := body.getD (eoff + 26) 0

/-- The sequence of an entry: its number within its instrument, unless that is zero. -/
def entrySequence (packetSeq : UInt64) (i : Nat) (entry : MdEntry) : UInt64 :=
  if entry.rptSeq ≠ 0 then entry.rptSeq.toUInt64
  else (packetSeq <<< 32) ||| UInt64.ofNat i

def entryEvent (packetSeq exchangeTs ingestTsNs : UInt64) (i : Nat) (entry : MdEntry) :
    BookEvent where
  venue := .cme
  type := updateActionToEventType entry.updateAction
  sequence := entrySequence packetSeq i entry
  exchangeTsNs := exchangeTs
  ingestTsNs := ingestTsNs
  symbol := securityIdToSymbol entry.securityId
  orderId := entrySequence packetSeq i entry
  qty := if entry.entrySize > 0 then
      UInt32.ofNat (min entry.entrySize.toInt.toNat (2 ^ 31 - 1))
    else 0
  price := price9MantissaToTick entry.pxMantissa
  side := entryTypeToSide entry.entryType
  rawType := kTemplateMdIncrementalRefreshBook32.toUInt8

/-- The loop over the entries of a group, from entry `i` on. -/
def parseEntries (body : List UInt8) (pos entryBlockLen : Nat) (event : Nat → MdEntry → BookEvent) :
    Nat → Nat → List BookEvent → ParseStats → List BookEvent × ParseStats
  | 0, _, out, stats => (out, stats)
  | remaining + 1, i, out, stats =>
    let eoff := pos + i * entryBlockLen
    if eoff + 32 > body.length then (out, stats.malformed)
    else
      let entry := readEntry body eoff
      if entry.entryType = 'J'.toUInt8 then
        parseEntries body pos entryBlockLen event remaining (i + 1) out stats
      else
        parseEntries body pos entryBlockLen event remaining (i + 1) (out ++ [event i entry])
          stats.emitted

/-- The group header behind the fixed block of eleven bytes: length and number of the
entries. -/
def entryBlockLen (body : List UInt8) : Nat := readLe body 11 2

def entryCount (body : List UInt8) : Nat := (body.getD 13 0).toNat

def parseIncrementalRefreshBook32 (body : List UInt8) (packetSeq transactTimeNs ingestTsNs : UInt64)
    (stats : ParseStats) : List BookEvent × ParseStats :=
  if body.length < 11 then ([], stats.malformed)
  else
    let transactTime := UInt64.ofNat (readLe body 0 8)
    let exchangeTs := if transactTime ≠ 0 then transactTime else transactTimeNs
    if 11 + 3 > body.length then ([], stats.malformed)
    else if entryBlockLen body < 32 ∨ 14 + entryCount body * entryBlockLen body > body.length then
      ([], stats.malformed)
    else
      parseEntries body 14 (entryBlockLen body) (entryEvent packetSeq exchangeTs ingestTsNs)
        (entryCount body) 0 [] stats

/-- The loop over the messages of a packet; `rest` is what lies behind the messages parsed
so far. A message has at least ten bytes, so the fuel never runs out before the data. -/
def parseMessages (header : MdpPacketHeader) (ingestTsNs : UInt64) :
    Nat → List UInt8 → List BookEvent → ParseStats → List BookEvent × ParseStats
  | 0, _, out, stats => (out, stats)
  | fuel + 1, rest, out, stats =>
    if rest.length < 10 then (out, stats)
    else
      match decodeSbeHeader rest with
      | none => (out, stats.malformed)
      | some hdr =>
        let stats := stats.parsed hdr.templateId
        let body := (rest.drop 10).take (hdr.msgSize.toNat - 10)
        let next := rest.drop hdr.msgSize.toNat
        if hdr.templateId = kTemplateMdIncrementalRefreshBook32 then
          let parsed := parseIncrementalRefreshBook32 body header.msgSeqNum.toUInt64
            header.sendingTime ingestTsNs stats
          parseMessages header ingestTsNs fuel next (out ++ parsed.1) parsed.2
        else parseMessages header ingestTsNs fuel next out stats

def parsePacket (udpPayload : List UInt8) (ingestTsNs : UInt64) (stats : ParseStats) :
    List BookEvent × ParseStats :=
  match decodeMdpPacketHeader udpPayload with
  | none => ([], stats.malformed)
  | some header => parseMessages header ingestTsNs udpPayload.length (udpPayload.drop 12) [] stats

/-- Packets parsed one after another, each with its arrival time. -/
def parsePackets : List (List UInt8 × UInt64) → ParseStats → List BookEvent × ParseStats
  | [], stats => ([], stats)
  | packet :: rest, stats =>
    let parsed := parsePacket packet.1 packet.2 stats
    let later := parsePackets rest parsed.2
    (parsed.1 ++ later.1, later.2)

/-- An entry that is parsed into an event, with its packet's number and its own in its
group. -/
structure GroupEntry where
  packetSeq : UInt64
  index : Nat
  entry : MdEntry

def GroupEntry.sequence (placed : GroupEntry) : UInt64 :=
  entrySequence placed.packetSeq placed.index placed.entry

/-- The message body holds the group its group header announces. -/
def HoldsGroup (body : List UInt8) : Prop :=
  14 ≤ body.length ∧ 32 ≤ entryBlockLen body ∧
    14 + entryCount body * entryBlockLen body ≤ body.length

instance (body : List UInt8) : Decidable (HoldsGroup body) := inferInstanceAs (Decidable (_ ∧ _))

/-- Entries `i`, `i + 1`, … of a group that are not of the type that is skipped. -/
def groupEntries (packetSeq : UInt64) (body : List UInt8) (i count : Nat) : List GroupEntry :=
  ((List.range' i count).map fun j =>
      (⟨packetSeq, j, readEntry body (14 + j * entryBlockLen body)⟩ : GroupEntry)).filter
    fun placed => placed.entry.entryType ≠ 'J'.toUInt8

def bodyEntries (packetSeq : UInt64) (body : List UInt8) : List GroupEntry :=
  if HoldsGroup body then groupEntries packetSeq body 0 (entryCount body) else []

def messageEntries (packetSeq : UInt64) : Nat → List UInt8 → List GroupEntry
  | 0, _ => []
  | fuel + 1, rest =>
    match decodeSbeHeader rest with
    | none => []
    | some hdr =>
      (if hdr.templateId = kTemplateMdIncrementalRefreshBook32 then
        bodyEntries packetSeq ((rest.drop 10).take (hdr.msgSize.toNat - 10)) else []) ++
      messageEntries packetSeq fuel (rest.drop hdr.msgSize.toNat)

/-- The entries of a packet's incremental refreshes, in order. -/
def packetEntries (udpPayload : List UInt8) : List GroupEntry :=
  match decodeMdpPacketHeader udpPayload with
  | none => []
  | some header =>
    messageEntries header.msgSeqNum.toUInt64 udpPayload.length (udpPayload.drop 12)

/-- What the sequencer reads of an event. -/
def stamp (ev : BookEvent) : Venue × UInt64 := (ev.venue, ev.sequence)

def GroupEntry.stamp (placed : GroupEntry) : Venue × UInt64 := (.cme, placed.sequence)

variable {body : List UInt8} {packetSeq exchangeTs ingestTsNs transactTimeNs : UInt64}

theorem groupEntries_succ (i count : Nat) : groupEntries packetSeq body i (count + 1) =
    (if (readEntry body (14 + i * entryBlockLen body)).entryType = 'J'.toUInt8 then []
      else [⟨packetSeq, i, readEntry body (14 + i * entryBlockLen body)⟩]) ++
    groupEntries packetSeq body (i + 1) count := by
  by_cases skipped : (readEntry body (14 + i * entryBlockLen body)).entryType = 'J'.toUInt8
  · simp [groupEntries, List.range'_succ, skipped]
  · simp [groupEntries, List.range'_succ, skipped]

/-- The loop over a group that fits its body emits one event an entry. -/
theorem parseEntries_stamps (wide : 32 ≤ entryBlockLen body) (remaining i : Nat)
    (fits : 14 + (i + remaining) * entryBlockLen body ≤ body.length)
    (out : List BookEvent) (stats : ParseStats) :
    ((parseEntries body 14 (entryBlockLen body) (entryEvent packetSeq exchangeTs ingestTsNs)
        remaining i out stats).1).map stamp =
      out.map stamp ++ (groupEntries packetSeq body i remaining).map GroupEntry.stamp := by
  induction remaining generalizing i out stats with
  | zero => simp [parseEntries, groupEntries]
  | succ remaining ih =>
    have later : 14 + (i + 1 + remaining) * entryBlockLen body ≤ body.length := by
      rwa [Nat.add_right_comm, Nat.add_assoc]
    have grown : (i + (remaining + 1)) * entryBlockLen body =
        i * entryBlockLen body + remaining * entryBlockLen body + entryBlockLen body := by ring
    have inside : ¬ 14 + i * entryBlockLen body + 32 > body.length := by omega
    rw [groupEntries_succ]
    simp only [parseEntries]
    rw [if_neg inside]
    by_cases skipped : (readEntry body (14 + i * entryBlockLen body)).entryType = 'J'.toUInt8
    · rw [if_pos skipped, if_pos skipped, ih (i + 1) later]
      rfl
    · rw [if_neg skipped, if_neg skipped, ih (i + 1) later]
      simp [stamp, GroupEntry.stamp, GroupEntry.sequence, entryEvent]

theorem parseBook_stamps (stats : ParseStats) :
    (parseIncrementalRefreshBook32 body packetSeq transactTimeNs ingestTsNs stats).1.map stamp =
      (bodyEntries packetSeq body).map GroupEntry.stamp := by
  simp only [parseIncrementalRefreshBook32, bodyEntries]
  by_cases holds : HoldsGroup body
  · rw [if_pos holds]
    obtain ⟨long, wide, fits⟩ := holds
    rw [if_neg (by omega), if_neg (by omega), if_neg (by omega),
      parseEntries_stamps wide _ _ (by rwa [Nat.zero_add])]
    rfl
  · rw [if_neg holds]
    by_cases short : body.length < 11
    · rw [if_pos short]
      rfl
    · rw [if_neg short]
      by_cases headless : 11 + 3 > body.length
      · rw [if_pos headless]
        rfl
      · have bad : entryBlockLen body < 32 ∨
            14 + entryCount body * entryBlockLen body > body.length := by
          simp only [HoldsGroup] at holds
          omega
        rw [if_neg headless, if_pos bad]
        rfl

theorem parseMessages_stamps (header : MdpPacketHeader) (fuel : Nat) (rest : List UInt8)
    (out : List BookEvent) (stats : ParseStats) :
    (parseMessages header ingestTsNs fuel rest out stats).1.map stamp =
      out.map stamp ++
        (messageEntries header.msgSeqNum.toUInt64 fuel rest).map GroupEntry.stamp := by
  induction fuel generalizing rest out stats with
  | zero => simp [parseMessages, messageEntries]
  | succ fuel ih =>
    simp only [parseMessages, messageEntries]
    by_cases short : rest.length < 10
    · rw [if_pos short]
      simp [decodeSbeHeader, short]
    · rw [if_neg short]
      cases decodeSbeHeader rest with
      | none => simp
      | some hdr =>
        by_cases book : hdr.templateId = kTemplateMdIncrementalRefreshBook32
        · simp only [if_pos book]
          rw [ih, List.map_append, List.map_append, parseBook_stamps, List.append_assoc]
        · simp only [if_neg book]
          rw [ih, List.nil_append]

/-- A packet's events carry the sequences of its entries, in order. -/
theorem parsePacket_stamps (udpPayload : List UInt8) (stats : ParseStats) :
    (parsePacket udpPayload ingestTsNs stats).1.map stamp =
      (packetEntries udpPayload).map GroupEntry.stamp := by
  simp only [parsePacket, packetEntries]
  cases decodeMdpPacketHeader udpPayload with
  | none => rfl
  | some header => exact parseMessages_stamps header _ _ [] stats

theorem parsePackets_stamps (packets : List (List UInt8 × UInt64)) (stats : ParseStats) :
    (parsePackets packets stats).1.map stamp =
      (packets.flatMap fun packet => packetEntries packet.1).map GroupEntry.stamp := by
  induction packets generalizing stats with
  | nil => rfl
  | cons packet rest ih =>
    rw [parsePackets, List.map_append, parsePacket_stamps, ih, List.flatMap_cons, List.map_append]

end Mdp3
end FeedHandler
