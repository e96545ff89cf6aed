import FeedHandler.Core.Types

/-! The Nasdaq ITCH 5.0 parser. A payload is one type byte and a packed record; offsets
count from the byte after the type. Messages that only name an order reference leave
symbol and side of the event unset. -/
namespace FeedHandler

open BigEndian

structure ParseStats where
  typeCounts : UInt8 → UInt64 := fun _ => 0
  parsedMessages : UInt64 := 0
  malformedMessages : UInt64 := 0

namespace ParseStats

def malformed (stats : ParseStats) : ParseStats :=
  { stats with malformedMessages := stats.malformedMessages + 1 }

/-- Counted before the size of the payload is looked at. -/
def parsed (stats : ParseStats) (type : UInt8) : ParseStats :=
  { stats with
    typeCounts := Function.update stats.typeCounts type (stats.typeCounts type + 1)
    parsedMessages := stats.parsedMessages + 1 }

end ParseStats

namespace Itch50

def decodeSide (c : UInt8) : Side :=
  if c = 'B'.toUInt8 then .buy
  else if c = 'S'.toUInt8 then .sell
  else .unknown

def decodeTs6 (m : List UInt8) : UInt64 := UInt64.ofNat (readAt m 4 6)

def readU32 (m : List UInt8) (offset : Nat) : UInt32 := UInt32.ofNat (readAt m offset 4)

def readU64 (m : List UInt8) (offset : Nat) : UInt64 := UInt64.ofNat (readAt m offset 8)

def readStock (m : List UInt8) (offset : Nat) : SymbolKey := ⟨sliceAt m offset 8⟩

/-- The record size a type must have behind its type byte; other types have none. -/
def recordSize (type : UInt8) : Nat :=
  if type = 'A'.toUInt8 then 35
  else if type = 'F'.toUInt8 then 39
  else if type = 'E'.toUInt8 then 30
  else if type = 'C'.toUInt8 then 35
  else if type = 'X'.toUInt8 then 22
  else if type = 'D'.toUInt8 then 18
  else if type = 'U'.toUInt8 then 34
  else if type = 'P'.toUInt8 then 43
  else if type = 'Q'.toUInt8 then 39
  else if type = 'I'.toUInt8 then 49
  else if type = 'S'.toUInt8 then 11
  else if type = 'R'.toUInt8 then 38
  else 0

/-- The fields of a record that is long enough, on top of the event's common ones. -/
def decode (ev : BookEvent) (type : UInt8) (m : List UInt8) : BookEvent :=
  if type = 'A'.toUInt8 then
    { ev with
      type := .add, exchangeTsNs := decodeTs6 m, orderId := readU64 m 10, qty := readU32 m 19,
      price := readU32 m 31, side := decodeSide (m.getD 18 0), symbol := readStock m 23 }
  else if type = 'F'.toUInt8 then
    { ev with
      type := .addMpid, exchangeTsNs := decodeTs6 m, orderId := readU64 m 10,
      qty := readU32 m 19, price := readU32 m 31, side := decodeSide (m.getD 18 0),
      symbol := readStock m 23, mpid := some (sliceAt m 35 4) }
  else if type = 'E'.toUInt8 then
    { ev with
      type := .execute, exchangeTsNs := decodeTs6 m, orderId := readU64 m 10,
      qty := readU32 m 18, matchId := readU64 m 22 }
  else if type = 'C'.toUInt8 then
    { ev with
      type := .executePrice, exchangeTsNs := decodeTs6 m, orderId := readU64 m 10,
      qty := readU32 m 18, matchId := readU64 m 22, price := readU32 m 31 }
  else if type = 'X'.toUInt8 then
    { ev with
      type := .cancel, exchangeTsNs := decodeTs6 m, orderId := readU64 m 10,
      qty := readU32 m 18 }
  else if type = 'D'.toUInt8 then
    { ev with type := .delete, exchangeTsNs := decodeTs6 m, orderId := readU64 m 10 }
  else if type = 'U'.toUInt8 then
    { ev with
      type := .replace, exchangeTsNs := decodeTs6 m, referenceOrderId := readU64 m 10,
      orderId := readU64 m 18, qty := readU32 m 26, price := readU32 m 30 }
  else if type = 'P'.toUInt8 then
    { ev with
      type := .trade, exchangeTsNs := decodeTs6 m, orderId := readU64 m 10,
      side := decodeSide (m.getD 18 0), qty := readU32 m 19, symbol := readStock m 23,
      price := readU32 m 31, matchId := readU64 m 35 }
  else if type = 'Q'.toUInt8 then
    { ev with
      type := .crossTrade, exchangeTsNs := decodeTs6 m, qty := (readU64 m 10).toUInt32,
      symbol := readStock m 18, price := readU32 m 26, matchId := readU64 m 30 }
  else if type = 'I'.toUInt8 then
    { ev with
      type := .imbalance, exchangeTsNs := decodeTs6 m, qty := (readU64 m 18).toUInt32,
      symbol := readStock m 27 }
  else if type = 'S'.toUInt8 then { ev with type := .system, exchangeTsNs := decodeTs6 m }
  else if type = 'R'.toUInt8 then
    { ev with type := .stockDirectory, exchangeTsNs := decodeTs6 m, symbol := readStock m 10 }
  else { ev with type := .unknown }

/-- An empty payload and a record that is too short are malformed; both counters see
a short record. -/
def parseMessage (payload : List UInt8) (sequence ingestTsNs : UInt64) (stats : ParseStats) :
    Option BookEvent × ParseStats :=
  match payload with
  | [] => (none, stats.malformed)
  | type :: m =>
    if m.length < recordSize type then (none, (stats.parsed type).malformed)
    else
      (some (decode
        { venue := .nasdaq, sequence := sequence, ingestTsNs := ingestTsNs, rawType := type }
        type m), stats.parsed type)

/-- No record touches the venue or the sequence. -/
theorem decode_stamp (ev : BookEvent) (type : UInt8) (m : List UInt8) :
    (decode ev type m).venue = ev.venue ∧ (decode ev type m).sequence = ev.sequence := by
  constructor
  · simp only [decode, apply_ite BookEvent.venue, ite_self]
  · simp only [decode, apply_ite BookEvent.sequence, ite_self]

theorem parseMessage_stamp {payload : List UInt8} {sequence ingestTsNs : UInt64}
    {stats : ParseStats} {ev : BookEvent}
    (parsed : (parseMessage payload sequence ingestTsNs stats).1 = some ev) :
    ev.venue = .nasdaq ∧ ev.sequence = sequence := by
  simp only [parseMessage] at parsed
  split at parsed
  · contradiction
  · split at parsed
    · contradiction
    · cases parsed
      exact decode_stamp _ _ _

end Itch50

/-- The fields every record starts with; six bytes of the timestamp are sent. -/
structure ItchHeader where
  stockLocate : UInt16 := 0
  trackingNumber : UInt16 := 0
  timestamp : UInt64 := 0

structure AddOrder where
  orderRef : UInt64
  buySell : UInt8
  shares : UInt32
  stock : SymbolKey
  price : UInt32

/-- The messages of an order's life. -/
inductive ItchMessage where
  | addOrder (header : ItchHeader) (add : AddOrder)
  | addOrderMpid (header : ItchHeader) (add : AddOrder) (attribution : Vector UInt8 4)
  | orderExecuted (header : ItchHeader) (orderRef : UInt64) (executedShares : UInt32)
      (matchNumber : UInt64)
  | orderExecutedPrice (header : ItchHeader) (orderRef : UInt64) (executedShares : UInt32)
      (matchNumber : UInt64) (printable : UInt8) (executionPrice : UInt32)
  | orderCancel (header : ItchHeader) (orderRef : UInt64) (canceledShares : UInt32)
  | orderDelete (header : ItchHeader) (orderRef : UInt64)
  | orderReplace (header : ItchHeader) (originalOrderRef newOrderRef : UInt64) (shares : UInt32)
      (price : UInt32)

namespace ItchMessage

def header : ItchMessage → ItchHeader
  | addOrder header _ | addOrderMpid header _ _ | orderExecuted header _ _ _
  | orderExecutedPrice header _ _ _ _ _ | orderCancel header _ _ | orderDelete header _
  | orderReplace header _ _ _ _ => header

def type : ItchMessage → UInt8
  | addOrder .. => 'A'.toUInt8
  | addOrderMpid .. => 'F'.toUInt8
  | orderExecuted .. => 'E'.toUInt8
  | orderExecutedPrice .. => 'C'.toUInt8
  | orderCancel .. => 'X'.toUInt8
  | orderDelete .. => 'D'.toUInt8
  | orderReplace .. => 'U'.toUInt8

def encodeU32 (x : UInt32) : List UInt8 := toBytes 4 x.toNat

def encodeU64 (x : UInt64) : List UInt8 := toBytes 8 x.toNat

def encodeAdd (add : AddOrder) (rest : List UInt8) : List UInt8 :=
  encodeU64 add.orderRef ++ ([add.buySell] ++ (encodeU32 add.shares ++
    (add.stock.bytes.toList ++ (encodeU32 add.price ++ rest))))

/-- The part of the record behind the header. -/
def encodeBody : ItchMessage → List UInt8
  | addOrder _ add => encodeAdd add []
  | addOrderMpid _ add attribution => encodeAdd add (attribution.toList ++ [])
  | orderExecuted _ orderRef executedShares matchNumber =>
    encodeU64 orderRef ++ (encodeU32 executedShares ++ (encodeU64 matchNumber ++ []))
  | orderExecutedPrice _ orderRef executedShares matchNumber printable executionPrice =>
    encodeU64 orderRef ++ (encodeU32 executedShares ++ (encodeU64 matchNumber ++
      ([printable] ++ (encodeU32 executionPrice ++ []))))
  | orderCancel _ orderRef canceledShares =>
    encodeU64 orderRef ++ (encodeU32 canceledShares ++ [])
  | orderDelete _ orderRef => encodeU64 orderRef ++ []
  | orderReplace _ originalOrderRef newOrderRef shares price =>
    encodeU64 originalOrderRef ++ (encodeU64 newOrderRef ++ (encodeU32 shares ++
      (encodeU32 price ++ [])))

/-- The packed record behind the type byte. -/
def record (m : ItchMessage) : List UInt8 :=
  toBytes 2 m.header.stockLocate.toNat ++ (toBytes 2 m.header.trackingNumber.toNat ++
    (toBytes 6 m.header.timestamp.toNat ++ m.encodeBody))

def encode (m : ItchMessage) : List UInt8 := m.type :: m.record

/-- The event the fields of a message stand for. -/
def event (m : ItchMessage) (sequence ingestTsNs : UInt64) : BookEvent :=
  let ev : BookEvent :=
    { venue := .nasdaq, sequence := sequence, ingestTsNs := ingestTsNs, rawType := m.type
      exchangeTsNs := UInt64.ofNat (m.header.timestamp.toNat % 256 ^ 6) }
  match m with
  | addOrder _ add =>
    { ev with
      type := .add, orderId := add.orderRef, qty := add.shares, price := add.price,
      side := Itch50.decodeSide add.buySell, symbol := add.stock }
  | addOrderMpid _ add attribution =>
    { ev with
      type := .addMpid, orderId := add.orderRef, qty := add.shares, price := add.price,
      side := Itch50.decodeSide add.buySell, symbol := add.stock, mpid := some attribution }
  | orderExecuted _ orderRef executedShares matchNumber =>
    { ev with
      type := .execute, orderId := orderRef, qty := executedShares, matchId := matchNumber }
  | orderExecutedPrice _ orderRef executedShares matchNumber _ executionPrice =>
    { ev with
      type := .executePrice, orderId := orderRef, qty := executedShares, matchId := matchNumber,
      price := executionPrice }
  | orderCancel _ orderRef canceledShares =>
    { ev with type := .cancel, orderId := orderRef, qty := canceledShares }
  | orderDelete _ orderRef => { ev with type := .delete, orderId := orderRef }
  | orderReplace _ originalOrderRef newOrderRef shares price =>
    { ev with
      type := .replace, referenceOrderId := originalOrderRef, orderId := newOrderRef,
      qty := shares, price := price }

end ItchMessage

namespace Itch50

open ItchMessage

variable {rest bytes : List UInt8} {offset : Nat}

theorem readU32_append (behind : bytes.length ≤ offset) :
    readU32 (bytes ++ rest) offset = readU32 rest (offset - bytes.length) := by
  simp only [readU32]
  rw [readAt_append behind]

theorem readU64_append (behind : bytes.length ≤ offset) :
    readU64 (bytes ++ rest) offset = readU64 rest (offset - bytes.length) := by
  simp only [readU64]
  rw [readAt_append behind]

theorem readStock_append (behind : bytes.length ≤ offset) :
    readStock (bytes ++ rest) offset = readStock rest (offset - bytes.length) := by
  simp only [readStock]
  rw [sliceAt_append behind]

theorem readU32_here (x : UInt32) : readU32 (encodeU32 x ++ rest) 0 = x := by
  simp only [readU32, encodeU32]
  have small : x.toNat < 256 ^ 4 := x.toNat_lt
  rw [readAt_here, Nat.mod_eq_of_lt small, UInt32.ofNat_toNat]

theorem readU64_here (x : UInt64) : readU64 (encodeU64 x ++ rest) 0 = x := by
  simp only [readU64, encodeU64]
  have small : x.toNat < 256 ^ 8 := x.toNat_lt
  rw [readAt_here, Nat.mod_eq_of_lt small, UInt64.ofNat_toNat]

theorem readStock_here (stock : SymbolKey) : readStock (stock.bytes.toList ++ rest) 0 = stock := by
  simp only [readStock]
  rw [sliceAt_here]

@[simp] theorem length_encodeU32 (x : UInt32) : (encodeU32 x).length = 4 := length_toBytes 4 _

@[simp] theorem length_encodeU64 (x : UInt64) : (encodeU64 x).length = 8 := length_toBytes 8 _

theorem decodeTs6_record (m : ItchMessage) :
    decodeTs6 m.record = UInt64.ofNat (m.header.timestamp.toNat % 256 ^ 6) := by
  simp only [decodeTs6, ItchMessage.record]
  rw [readAt_append (by simp), readAt_append (by simp), length_toBytes, length_toBytes,
    readAt_here]

theorem length_record (m : ItchMessage) : m.record.length = recordSize m.type := by
  cases m <;>
    simp +decide [ItchMessage.record, encodeBody, encodeAdd, ItchMessage.type, recordSize]

/-- Every field of a record is read back where the message put it. -/
theorem decode_record (m : ItchMessage) (sequence ingestTsNs : UInt64) :
    decode { venue := .nasdaq, sequence := sequence, ingestTsNs := ingestTsNs, rawType := m.type }
      m.type m.record = m.event sequence ingestTsNs := by
  have ts := decodeTs6_record m
  cases m <;>
    simp +decide only [decode, ts, if_true, if_false, ItchMessage.type] <;>
    simp only [ItchMessage.record, encodeBody, encodeAdd, event, readU32_append, readU64_append,
      readStock_append, sliceAt_append, getD_append, readU32_here, readU64_here, readStock_here,
      sliceAt_here, length_toBytes, length_encodeU32, length_encodeU64, Vector.length_toList,
      List.length_singleton, getD_here, Nat.reduceLeDiff, Nat.reduceSub,
      Nat.sub_self, le_refl, ItchMessage.type]

theorem parseMessage_encode (m : ItchMessage) (sequence ingestTsNs : UInt64)
    (stats : ParseStats) :
    parseMessage m.encode sequence ingestTsNs stats =
      (some (m.event sequence ingestTsNs), stats.parsed m.type) := by
  simp only [parseMessage, ItchMessage.encode]
  simp only [length_record, lt_irrefl, if_false, decode_record]

end Itch50
end FeedHandler
