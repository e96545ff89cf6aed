import FeedHandler.Core.Types
import FeedHandler.Lib.LittleEndian

/-! The IEX DEEP+ parser. A payload is a packed little-endian record whose first byte is
the type and whose size must be exact. Prices have 64 bits on the wire; the event keeps 32
of them and saturates. -/
namespace FeedHandler
namespace IexDeep

open BigEndian (sliceAt)

structure ParseStats where
  typeCounts : UInt8 → UInt64 := fun _ => 0
  parsedMessages : UInt64 := 0
  malformedMessages : UInt64 := 0
  unimplementedMessages : UInt64 := 0

namespace ParseStats

def malformed (stats : ParseStats) : ParseStats :=
  { stats with malformedMessages := stats.malformedMessages + 1 }

/-- Counted before the size of the payload is looked at. -/
def parsed (stats : ParseStats) (type : UInt8) : ParseStats :=
  { stats with
    typeCounts := Function.update stats.typeCounts type (stats.typeCounts type + 1)
    parsedMessages := stats.parsedMessages + 1 }

def unimplemented (stats : ParseStats) : ParseStats :=
  { stats with unimplementedMessages := stats.unimplementedMessages + 1 }

end ParseStats

def decodeSide (c : UInt8) : Side :=
  if c = '8'.toUInt8 then .buy
  else if c = '5'.toUInt8 then .sell
  else .unknown

def narrowU64ToU32 (v : UInt64) : UInt32 := UInt32.ofNat (min v.toNat (2 ^ 32 - 1))

def readU32 (m : List UInt8) (offset : Nat) : UInt32 :=
  UInt32.ofNat (LittleEndian.readAt m offset 4)

def readU64 (m : List UInt8) (offset : Nat) : UInt64 :=
  UInt64.ofNat (LittleEndian.readAt m offset 8)

def readSymbol (m : List UInt8) (offset : Nat) : SymbolKey := ⟨sliceAt m offset 8⟩

/-- The size a payload of a decoded type must have; the other types have no record. -/
def recordSize (type : UInt8) : Option Nat :=
  if type = 'S'.toUInt8 then some 10
  else if type = 'E'.toUInt8 then some 18
  else if type = 'a'.toUInt8 then some 38
  else if type = 'M'.toUInt8 then some 38
  else if type = 'R'.toUInt8 then some 26
  else if type = 'L'.toUInt8 then some 46
  else if type = 'T'.toUInt8 then some 38
  else none

/-- The fields of a record of the right size, on top of the event's common ones. A modify
message becomes a Replace: its order reference is the id of the event, and the reference
id and the side stay unset. -/
def decode (ev : BookEvent) (type : UInt8) (m : List UInt8) : BookEvent :=
  if type = 'S'.toUInt8 then { ev with type := .system, exchangeTsNs := readU64 m 2 }
  else if type = 'E'.toUInt8 then
    { ev with type := .system, exchangeTsNs := readU64 m 2, symbol := readSymbol m 10 }
  else if type = 'a'.toUInt8 then
    { ev with
      type := .add, exchangeTsNs := readU64 m 2, symbol := readSymbol m 10,
      orderId := readU64 m 18, qty := readU32 m 26, price := narrowU64ToU32 (readU64 m 30),
      side := decodeSide (m.getD 1 0) }
  else if type = 'M'.toUInt8 then
    { ev with
      type := .replace, exchangeTsNs := readU64 m 2, symbol := readSymbol m 10,
      orderId := readU64 m 18, qty := readU32 m 26, price := narrowU64ToU32 (readU64 m 30) }
  else if type = 'R'.toUInt8 then
    { ev with
      type := .delete, exchangeTsNs := readU64 m 2, symbol := readSymbol m 10,
      orderId := readU64 m 18 }
  else if type = 'L'.toUInt8 then
    { ev with
      type := .executePrice, exchangeTsNs := readU64 m 2, symbol := readSymbol m 10,
      orderId := readU64 m 18, qty := readU32 m 26, price := narrowU64ToU32 (readU64 m 30),
      matchId := readU64 m 38 }
  else if type = 'T'.toUInt8 then
    { ev with
      type := .trade, exchangeTsNs := readU64 m 2, symbol := readSymbol m 10,
      qty := readU32 m 18, price := narrowU64ToU32 (readU64 m 22), matchId := readU64 m 30 }
  else { ev with type := .unknown }

/-- An empty payload and one of the wrong size are malformed; types without a record pass
as unknown events and are counted as unimplemented. -/
def parseMessage (payload : List UInt8) (sequence ingestTsNs : UInt64) (stats : ParseStats) :
    Option BookEvent × ParseStats :=
  match payload with
  | [] => (none, stats.malformed)
  | type :: _ =>
    let ev := decode
      { venue := .iex, sequence := sequence, ingestTsNs := ingestTsNs, rawType := type } type payload
    match recordSize type with
    | none => (some ev, (stats.parsed type).unimplemented)
    | some size =>
      if payload.length ≠ size then (none, (stats.parsed type).malformed)
      else (some ev, stats.parsed type)

/-- No record touches the venue or the sequence. -/
theorem decode_stamp (ev : BookEvent) (type : UInt8) (m : List UInt8) :
    (decode ev type m).venue = ev.venue ∧ (decode ev type m).sequence = ev.sequence := by
  constructor
  · simp only [decode, apply_ite BookEvent.venue, ite_self]
  · simp only [decode, apply_ite BookEvent.sequence, ite_self]

theorem parseMessage_stamp {payload : List UInt8} {sequence ingestTsNs : UInt64}
    {stats : ParseStats} {ev : BookEvent}
    (parsed : (parseMessage payload sequence ingestTsNs stats).1 = some ev) :
    ev.venue = .iex ∧ ev.sequence = sequence := by
  simp only [parseMessage] at parsed
  split at parsed
  · contradiction
  · split at parsed
    · cases parsed
      exact decode_stamp _ _ _
    · split at parsed
      · contradiction
      · cases parsed
        exact decode_stamp _ _ _

end IexDeep

/-- The fields of a message that names an order. -/
structure DeepHeader where
  flags : UInt8 := 0
  timestamp : UInt64 := 0
  symbol : SymbolKey

inductive DeepMessage where
  | systemEvent (event : UInt8) (timestamp : UInt64)
  | securityEvent (header : DeepHeader)
  | addOrder (side : UInt8) (timestamp : UInt64) (symbol : SymbolKey) (orderId : UInt64)
      (size : UInt32) (price : UInt64)
  | modifyOrder (header : DeepHeader) (orderIdRef : UInt64) (size : UInt32) (price : UInt64)
  | deleteOrder (header : DeepHeader) (orderIdRef : UInt64)
  | orderExecuted (header : DeepHeader) (orderIdRef : UInt64) (size : UInt32) (price : UInt64)
      (tradeId : UInt64)
  | trade (header : DeepHeader) (size : UInt32) (price : UInt64) (tradeId : UInt64)

namespace DeepMessage

def type : DeepMessage → UInt8
  | systemEvent .. => 'S'.toUInt8
  | securityEvent .. => 'E'.toUInt8
  | addOrder .. => 'a'.toUInt8
  | modifyOrder .. => 'M'.toUInt8
  | deleteOrder .. => 'R'.toUInt8
  | orderExecuted .. => 'L'.toUInt8
  | trade .. => 'T'.toUInt8

def encodeU32 (x : UInt32) : List UInt8 := LittleEndian.toBytes 4 x.toNat

def encodeU64 (x : UInt64) : List UInt8 := LittleEndian.toBytes 8 x.toNat

/-- The record of a message in wire order. -/
def encode (m : DeepMessage) : List UInt8 :=
  [m.type] ++ match m with
  | systemEvent event timestamp => [event] ++ (encodeU64 timestamp ++ [])
  | securityEvent header =>
    [header.flags] ++ (encodeU64 header.timestamp ++ (header.symbol.bytes.toList ++ []))
  | addOrder side timestamp symbol orderId size price =>
    [side] ++ (encodeU64 timestamp ++ (symbol.bytes.toList ++ (encodeU64 orderId ++
      (encodeU32 size ++ (encodeU64 price ++ [])))))
  | modifyOrder header orderIdRef size price =>
    [header.flags] ++ (encodeU64 header.timestamp ++ (header.symbol.bytes.toList ++
      (encodeU64 orderIdRef ++ (encodeU32 size ++ (encodeU64 price ++ [])))))
  | deleteOrder header orderIdRef =>
    [header.flags] ++ (encodeU64 header.timestamp ++ (header.symbol.bytes.toList ++
      (encodeU64 orderIdRef ++ [])))
  | orderExecuted header orderIdRef size price tradeId =>
    [header.flags] ++ (encodeU64 header.timestamp ++ (header.symbol.bytes.toList ++
      (encodeU64 orderIdRef ++ (encodeU32 size ++ (encodeU64 price ++
        (encodeU64 tradeId ++ []))))))
  | trade header size price tradeId =>
    [header.flags] ++ (encodeU64 header.timestamp ++ (header.symbol.bytes.toList ++
      (encodeU32 size ++ (encodeU64 price ++ (encodeU64 tradeId ++ [])))))

/-- The event the parser makes of a message. -/
def event (m : DeepMessage) (sequence ingestTsNs : UInt64) : BookEvent :=
  let ev : BookEvent :=
    { venue := .iex, sequence := sequence, ingestTsNs := ingestTsNs, rawType := m.type }
  match m with
  | systemEvent _ timestamp => { ev with type := .system, exchangeTsNs := timestamp }
  | securityEvent header =>
    { ev with type := .system, exchangeTsNs := header.timestamp, symbol := header.symbol }
  | addOrder side timestamp symbol orderId size price =>
    { ev with
      type := .add, exchangeTsNs := timestamp, symbol := symbol, orderId := orderId, qty := size,
      price := IexDeep.narrowU64ToU32 price, side := IexDeep.decodeSide side }
  | modifyOrder header orderIdRef size price =>
    { ev with
      type := .replace, exchangeTsNs := header.timestamp, symbol := header.symbol,
      orderId := orderIdRef, qty := size, price := IexDeep.narrowU64ToU32 price }
  | deleteOrder header orderIdRef =>
    { ev with
      type := .delete, exchangeTsNs := header.timestamp, symbol := header.symbol,
      orderId := orderIdRef }
  | orderExecuted header orderIdRef size price tradeId =>
    { ev with
      type := .executePrice, exchangeTsNs := header.timestamp, symbol := header.symbol,
      orderId := orderIdRef, qty := size, price := IexDeep.narrowU64ToU32 price,
      matchId := tradeId }
  | trade header size price tradeId =>
    { ev with
      type := .trade, exchangeTsNs := header.timestamp, symbol := header.symbol, qty := size,
      price := IexDeep.narrowU64ToU32 price, matchId := tradeId }

end DeepMessage

namespace IexDeep

open DeepMessage

variable {rest bytes : List UInt8} {offset : Nat}

theorem readU32_append (behind : bytes.length ≤ offset) :
    readU32 (bytes ++ rest) offset = readU32 rest (offset - bytes.length) :=
  LittleEndian.word32At_append behind

theorem readU64_append (behind : bytes.length ≤ offset) :
    readU64 (bytes ++ rest) offset = readU64 rest (offset - bytes.length) :=
  LittleEndian.word64At_append behind

theorem readSymbol_append (behind : bytes.length ≤ offset) :
    readSymbol (bytes ++ rest) offset = readSymbol rest (offset - bytes.length) := by
  simp only [readSymbol]
  rw [BigEndian.sliceAt_append behind]

theorem readU32_here (x : UInt32) : readU32 (encodeU32 x ++ rest) 0 = x :=
  LittleEndian.word32At_here x

theorem readU64_here (x : UInt64) : readU64 (encodeU64 x ++ rest) 0 = x :=
  LittleEndian.word64At_here x

theorem readSymbol_here (symbol : SymbolKey) :
    readSymbol (symbol.bytes.toList ++ rest) 0 = symbol := by
  simp only [readSymbol]
  rw [BigEndian.sliceAt_here]

@[simp] theorem length_encodeU32 (x : UInt32) : (encodeU32 x).length = 4 :=
  LittleEndian.length_toBytes 4 _

@[simp] theorem length_encodeU64 (x : UInt64) : (encodeU64 x).length = 8 :=
  LittleEndian.length_toBytes 8 _

theorem length_encode (m : DeepMessage) : recordSize m.type = some m.encode.length := by
  cases m <;> simp +decide [encode, DeepMessage.type, recordSize]

/-- Every field of a record is read back where the message put it. -/
theorem decode_encode (m : DeepMessage) (sequence ingestTsNs : UInt64) :
    decode { venue := .iex, sequence := sequence, ingestTsNs := ingestTsNs, rawType := m.type }
      m.type m.encode = m.event sequence ingestTsNs := by
  cases m <;>
    simp +decide only [decode, if_true, if_false, DeepMessage.type] <;>
    simp only [encode, event, readU32_append, readU64_append, readSymbol_append, readU32_here,
      readU64_here, readSymbol_here, length_encodeU32, length_encodeU64, Vector.length_toList,
      List.length_singleton, Nat.reduceLeDiff, Nat.reduceSub, Nat.sub_self, le_refl,
      DeepMessage.type]
  rfl

theorem parseMessage_encode (m : DeepMessage) (sequence ingestTsNs : UInt64)
    (stats : ParseStats) :
    parseMessage m.encode sequence ingestTsNs stats =
      (some (m.event sequence ingestTsNs), stats.parsed m.type) := by
  have decoded := decode_encode m sequence ingestTsNs
  have size := length_encode m
  have typed : m.encode = m.type :: m.encode.tail := rfl
  rw [typed] at decoded size ⊢
  simp only [parseMessage, size, decoded, ne_eq, not_true, if_false]

end IexDeep
end FeedHandler
