import FeedHandler.Proto.Itch50

/-! The Cboe PITCH parser. A message is a line of ASCII characters: eight digits of a time
in milliseconds, the type, then fields of fixed width whose total must be exact. -/
namespace FeedHandler
namespace CboePitch

open BigEndian (sliceAt)

/-- Decimal digits appended to a value; zero as soon as a character is no digit. -/
def parseAsciiFrom (value : UInt64) : List UInt8 → UInt64
  | [] => value
  | c :: rest =>
    if c < '0'.toUInt8 ∨ '9'.toUInt8 < c then 0
    else parseAsciiFrom (value * 10 + (c - '0'.toUInt8).toUInt64) rest

def parseAsciiU64 (chars : List UInt8) : UInt64 := parseAsciiFrom 0 chars

def parseBase36From (value : UInt64) : List UInt8 → UInt64
  | [] => value
  | c :: rest =>
    if '0'.toUInt8 ≤ c ∧ c ≤ '9'.toUInt8 then
      parseBase36From (value * 36 + (c - '0'.toUInt8).toUInt64) rest
    else if 'A'.toUInt8 ≤ c ∧ c ≤ 'Z'.toUInt8 then
      parseBase36From (value * 36 + (10 + (c - 'A'.toUInt8).toUInt64)) rest
    else 0

def parseBase36U64 (chars : List UInt8) : UInt64 := parseBase36From 0 chars

/-- The characters of a field. -/
def field (m : List UInt8) (offset width : Nat) : List UInt8 := (m.drop offset).take width

def readU64 (m : List UInt8) (offset width : Nat) : UInt64 := parseAsciiU64 (field m offset width)

/-- A share count, cut to 32 bits. -/
def readShares (m : List UInt8) (offset : Nat) : UInt32 := (readU64 m offset 6).toUInt32

def readBase36 (m : List UInt8) (offset : Nat) : UInt64 := parseBase36U64 (field m offset 12)

def saturate (v : UInt64) : UInt32 := UInt32.ofNat (min v.toNat (2 ^ 32 - 1))

/-- Six whole and four decimal digits. -/
def parsePrice4dp (m : List UInt8) (offset : Nat) : UInt32 := saturate (readU64 m offset 10)

/-- Eight whole and six decimal digits; the last two are cut off. -/
def parseLongPrice6dpTo4dp (m : List UInt8) (offset : Nat) : UInt32 :=
  saturate (readU64 m offset 14 / 100)

def decodeSide (c : UInt8) : Side :=
  if c = 'B'.toUInt8 then .buy
  else if c = 'S'.toUInt8 then .sell
  else .unknown

/-- The first eight characters of a field, padded with blanks. -/
def copySymbol (src : List UInt8) : SymbolKey := ⟨Vector.ofFn fun i => src.getD i ' '.toUInt8⟩

def tsMsToNs (m : List UInt8) : UInt64 := readU64 m 0 8 * 1000000

/-- The size a message of a decoded type must have; the other types have no record. -/
def recordSize (type : UInt8) : Option Nat :=
  if type = 'A'.toUInt8 then some 45
  else if type = 'd'.toUInt8 then some 52
  else if type = '1'.toUInt8 then some 56
  else if type = 'E'.toUInt8 then some 39
  else if type = 'X'.toUInt8 then some 27
  else if type = 'P'.toUInt8 then some 56
  else if type = 'r'.toUInt8 then some 58
  else if type = '2'.toUInt8 then some 62
  else none

/-- The fields of a record of the right size, on top of the event's common ones. -/
def decode (ev : BookEvent) (type : UInt8) (m : List UInt8) : BookEvent :=
  if type = 'A'.toUInt8 then
    { ev with
      type := .add, exchangeTsNs := tsMsToNs m, orderId := readBase36 m 9,
      side := decodeSide (m.getD 21 0), qty := readShares m 22,
      symbol := copySymbol (field m 28 6), price := parsePrice4dp m 34 }
  else if type = 'd'.toUInt8 then
    { ev with
      type := .addMpid, exchangeTsNs := tsMsToNs m, orderId := readBase36 m 9,
      side := decodeSide (m.getD 21 0), qty := readShares m 22,
      symbol := copySymbol (field m 28 8), price := parsePrice4dp m 36,
      mpid := some (sliceAt m 47 4) }
  else if type = '1'.toUInt8 then
    { ev with
      type := .addMpid, exchangeTsNs := tsMsToNs m, orderId := readBase36 m 9,
      side := decodeSide (m.getD 21 0), qty := readShares m 22,
      symbol := copySymbol (field m 28 8), price := parseLongPrice6dpTo4dp m 36,
      mpid := some (sliceAt m 51 4) }
  else if type = 'E'.toUInt8 then
    { ev with
      type := .execute, exchangeTsNs := tsMsToNs m, orderId := readBase36 m 9,
      qty := readShares m 21, matchId := readBase36 m 27 }
  else if type = 'X'.toUInt8 then
    { ev with
      type := .cancel, exchangeTsNs := tsMsToNs m, orderId := readBase36 m 9,
      qty := readShares m 21 }
  else if type = 'P'.toUInt8 then
    { ev with
      type := .trade, exchangeTsNs := tsMsToNs m, orderId := readBase36 m 9,
      side := decodeSide (m.getD 21 0), qty := readShares m 22,
      symbol := copySymbol (field m 28 6), price := parsePrice4dp m 34,
      matchId := readBase36 m 44 }
  else if type = 'r'.toUInt8 then
    { ev with
      type := .trade, exchangeTsNs := tsMsToNs m, orderId := readBase36 m 9,
      side := decodeSide (m.getD 21 0), qty := readShares m 22,
      symbol := copySymbol (field m 28 8), price := parsePrice4dp m 36,
      matchId := readBase36 m 46 }
  else if type = '2'.toUInt8 then
    { ev with
      type := .trade, exchangeTsNs := tsMsToNs m, orderId := readBase36 m 9,
      side := decodeSide (m.getD 21 0), qty := readShares m 22,
      symbol := copySymbol (field m 28 8), price := parseLongPrice6dpTo4dp m 36,
      matchId := readBase36 m 50 }
  else { ev with type := .unknown }

/-- A line without a type and one of the wrong size are malformed; the counters are those
of the Nasdaq parser. -/
def parseMessage (payload : List UInt8) (sequence ingestTsNs : UInt64) (stats : ParseStats) :
    Option BookEvent × ParseStats :=
  if payload.length < 9 then (none, stats.malformed)
  else
    let type := payload.getD 8 0
    let ev := decode
      { venue := .cboe, sequence := sequence, ingestTsNs := ingestTsNs, rawType := type } type payload
    match recordSize type with
    | none => (some ev, stats.parsed type)
    | some size =>
      if payload.length ≠ size then (none, (stats.parsed type).malformed)
      else (some ev, stats.parsed type)

/-- No record touches the venue or the sequence. -/
theorem decode_stamp (ev : BookEvent) (type : UInt8) (m : List UInt8) :
    (decode ev type m).venue = ev.venue ∧ (decode ev type m).sequence = ev.sequence := by
  constructor
  · simp only [decode, apply_ite BookEvent.venue, ite_self]
  · simp only [decode, apply_ite BookEvent.sequence, ite_self]

/-- What is parsed is an event of this venue with the sequence it was given. -/
theorem parseMessage_stamp {payload : List UInt8} {sequence ingestTsNs : UInt64}
    {stats : ParseStats} {ev : BookEvent}
    (parsed : (parseMessage payload sequence ingestTsNs stats).1 = some ev) :
    ev.venue = .cboe ∧ ev.sequence = sequence := by
  simp only [parseMessage] at parsed
  split at parsed
  · contradiction
  · split at parsed
    · cases parsed
      exact decode_stamp _ _ _
    · split at parsed
      · contradiction
      · cases parsed
        exact decode_stamp _ _ _

end CboePitch
end FeedHandler
