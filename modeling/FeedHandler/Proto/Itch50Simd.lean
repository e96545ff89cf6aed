import FeedHandler.Lib.LittleEndian
import FeedHandler.Proto.Itch50

/-! The hot path of the ITCH parser, which reads four message types at fixed offsets
instead of copying a packed record. Reads are partial: one that leaves the payload has
no result, so a parse that has one read nothing outside. -/
namespace FeedHandler

namespace Itch50

/-- `memcpy` from the payload. -/
def loadBytes (payload : List UInt8) (start n : Nat) : Option (List UInt8) :=
  if start + n ≤ payload.length then some ((payload.drop start).take n) else none

def bswap32 (x : UInt32) : UInt32 :=
  UInt32.ofNat (LittleEndian.ofBytes (LittleEndian.word32 x).reverse)

def bswap64 (x : UInt64) : UInt64 :=
  UInt64.ofNat (LittleEndian.ofBytes (LittleEndian.word64 x).reverse)

def readU64Fast (payload : List UInt8) (start : Nat) : Option UInt64 :=
  (loadBytes payload start 8).map fun bytes => bswap64 (UInt64.ofNat (LittleEndian.ofBytes bytes))

def readU32Fast (payload : List UInt8) (start : Nat) : Option UInt32 :=
  (loadBytes payload start 4).map fun bytes => bswap32 (UInt32.ofNat (LittleEndian.ofBytes bytes))

/-- The six bytes of a timestamp, put together by shifts. -/
def joinTs6 (b0 b1 b2 b3 b4 b5 : UInt8) : UInt64 :=
  (b0.toUInt64 <<< 40) ||| (b1.toUInt64 <<< 32) ||| (b2.toUInt64 <<< 24) |||
    (b3.toUInt64 <<< 16) ||| (b4.toUInt64 <<< 8) ||| b5.toUInt64

def readTs6Fast (payload : List UInt8) (start : Nat) : Option UInt64 := do
  let b0 ← payload[start]?
  let b1 ← payload[start + 1]?
  let b2 ← payload[start + 2]?
  let b3 ← payload[start + 3]?
  let b4 ← payload[start + 4]?
  let b5 ← payload[start + 5]?
  return joinTs6 b0 b1 b2 b3 b4 b5

def copySymbolFast (payload : List UInt8) (start : Nat) : Option SymbolKey :=
  (loadBytes payload start 8).map fun bytes => ⟨BigEndian.sliceAt bytes 0 8⟩

/-- The block that the vector unit loads; nothing is taken from it. -/
def loadBlock (avx2 : Bool) (payload : List UInt8) (start : Nat) : Option Unit :=
  if avx2 then (loadBytes payload start 25).map fun _ => () else some ()

-- offsets of the cases count from the byte behind the type, as `p` does in the source

def hotAdd (avx2 : Bool) (payload : List UInt8) (ev : BookEvent) : Option BookEvent := do
  loadBlock avx2 payload (1 + 10)
  let ts ← readTs6Fast payload (1 + 4)
  let orderId ← readU64Fast payload (1 + 10)
  let side ← payload[1 + 18]?
  let qty ← readU32Fast payload (1 + 19)
  let symbol ← copySymbolFast payload (1 + 23)
  let price ← readU32Fast payload (1 + 31)
  return { ev with
    type := .add, exchangeTsNs := ts, orderId := orderId, side := decodeSide side, qty := qty,
    symbol := symbol, price := price }

def hotExecute (payload : List UInt8) (ev : BookEvent) : Option BookEvent := do
  let ts ← readTs6Fast payload (1 + 4)
  let orderId ← readU64Fast payload (1 + 10)
  let qty ← readU32Fast payload (1 + 18)
  let matchId ← readU64Fast payload (1 + 22)
  return { ev with
    type := .execute, exchangeTsNs := ts, orderId := orderId, qty := qty, matchId := matchId }

def hotCancel (payload : List UInt8) (ev : BookEvent) : Option BookEvent := do
  let ts ← readTs6Fast payload (1 + 4)
  let orderId ← readU64Fast payload (1 + 10)
  let qty ← readU32Fast payload (1 + 18)
  return { ev with type := .cancel, exchangeTsNs := ts, orderId := orderId, qty := qty }

def hotDelete (payload : List UInt8) (ev : BookEvent) : Option BookEvent := do
  let ts ← readTs6Fast payload (1 + 4)
  let orderId ← readU64Fast payload (1 + 10)
  return { ev with type := .delete, exchangeTsNs := ts, orderId := orderId }

/-- `require_size` in front of the reads of one message type. -/
def requireSize (payload : List UInt8) (size : Nat) (stats : ParseStats)
    (read : Option BookEvent) : Option (Option BookEvent × ParseStats) :=
  if payload.length < size + 1 then some (none, stats.malformed)
  else read.map fun ev => (some ev, stats)

/-- `parse_message` with its copy of the record out of the payload. -/
def parseMessageReads (payload : List UInt8) (sequence ingestTsNs : UInt64)
    (stats : ParseStats) : Option (Option BookEvent × ParseStats) :=
  match payload with
  | [] => some (none, stats.malformed)
  | type :: _ =>
    requireSize payload (recordSize type) (stats.parsed type)
      ((loadBytes payload 1 (recordSize type)).map fun m => decode
        { venue := .nasdaq, sequence := sequence, ingestTsNs := ingestTsNs, rawType := type }
        type m)

def parseHotMessageSimd (avx2 : Bool) (payload : List UInt8) (sequence ingestTsNs : UInt64)
    (stats : ParseStats) : Option (Option BookEvent × ParseStats) :=
  match payload with
  | [] => some (none, stats.malformed)
  | type :: _ =>
    let ev : BookEvent :=
      { venue := .nasdaq, sequence := sequence, ingestTsNs := ingestTsNs, rawType := type }
    if type = 'A'.toUInt8 then
      requireSize payload 35 (stats.parsed type) (hotAdd avx2 payload ev)
    else if type = 'E'.toUInt8 then
      requireSize payload 30 (stats.parsed type) (hotExecute payload ev)
    else if type = 'X'.toUInt8 then
      requireSize payload 22 (stats.parsed type) (hotCancel payload ev)
    else if type = 'D'.toUInt8 then
      requireSize payload 18 (stats.parsed type) (hotDelete payload ev)
    else parseMessageReads payload sequence ingestTsNs stats

section Reads

variable {bytes payload m : List UInt8} {start offset width n : Nat} {type : UInt8}

theorem bswap64_little (size : bytes.length = 8) :
    bswap64 (UInt64.ofNat (LittleEndian.ofBytes bytes)) =
      UInt64.ofNat (BigEndian.ofBytes bytes) := by
  have small : LittleEndian.ofBytes bytes < 2 ^ 64 := by
    have bound := LittleEndian.ofBytes_lt bytes
    rwa [size] at bound
  have spelled := LittleEndian.toBytes_ofBytes bytes
  rw [size] at spelled
  rw [bswap64, LittleEndian.word64, UInt64.toNat_ofNat_of_lt' small, spelled,
    LittleEndian.ofBytes_reverse]

theorem bswap32_little (size : bytes.length = 4) :
    bswap32 (UInt32.ofNat (LittleEndian.ofBytes bytes)) =
      UInt32.ofNat (BigEndian.ofBytes bytes) := by
  have small : LittleEndian.ofBytes bytes < 2 ^ 32 := by
    have bound := LittleEndian.ofBytes_lt bytes
    rwa [size] at bound
  have spelled := LittleEndian.toBytes_ofBytes bytes
  rw [size] at spelled
  rw [bswap32, LittleEndian.word32, UInt32.toNat_ofNat_of_lt' small, spelled,
    LittleEndian.ofBytes_reverse]

/-- A load behind the type byte. -/
theorem loadBytes_cons (inside : offset + n ≤ m.length) :
    loadBytes (type :: m) (1 + offset) n = some ((m.drop offset).take n) := by
  rw [loadBytes, if_pos (by rw [List.length_cons]; omega), Nat.add_comm 1, List.drop_succ_cons]

theorem length_slice (inside : offset + n ≤ m.length) : ((m.drop offset).take n).length = n := by
  rw [List.length_take, List.length_drop]
  omega

theorem readU64Fast_eq (inside : offset + 8 ≤ m.length) :
    readU64Fast (type :: m) (1 + offset) = some (readU64 m offset) := by
  rw [readU64Fast, loadBytes_cons inside, Option.map_some, bswap64_little (length_slice inside)]
  rfl

theorem readU32Fast_eq (inside : offset + 4 ≤ m.length) :
    readU32Fast (type :: m) (1 + offset) = some (readU32 m offset) := by
  rw [readU32Fast, loadBytes_cons inside, Option.map_some, bswap32_little (length_slice inside)]
  rfl

/-- A byte shifted past the bits of a word does not overlap it. -/
theorem shift_or_toNat (byte : UInt8) {low : UInt64} {value : Nat} (shift : UInt64) (k : Nat)
    (amount : shift.toNat = k) (small : k ≤ 40) (read : low.toNat = value)
    (fits : value < 2 ^ k) :
    ((byte.toUInt64 <<< shift) ||| low).toNat = byte.toNat * 2 ^ k + value := by
  have bound : byte.toNat < 2 ^ 8 := byte.toNat_lt
  have inside : byte.toNat <<< k < 2 ^ 64 := by
    rw [Nat.shiftLeft_eq]
    calc byte.toNat * 2 ^ k < 2 ^ 8 * 2 ^ k := Nat.mul_lt_mul_of_pos_right bound (Nat.two_pow_pos _)
      _ = 2 ^ (8 + k) := (Nat.pow_add ..).symm
      _ ≤ 2 ^ 64 := Nat.pow_le_pow_right (by decide) (by omega)
  have whole : k % 64 = k := Nat.mod_eq_of_lt (by omega)
  rw [UInt64.toNat_or, UInt64.toNat_shiftLeft, UInt8.toNat_toUInt64, amount, whole, read,
    Nat.mod_eq_of_lt inside, ← Nat.shiftLeft_add_eq_or_of_lt fits, Nat.shiftLeft_eq]

theorem joinTs6_eq (b0 b1 b2 b3 b4 b5 : UInt8) :
    joinTs6 b0 b1 b2 b3 b4 b5 = UInt64.ofNat (BigEndian.ofBytes [b0, b1, b2, b3, b4, b5]) := by
  have h0 := b0.toNat_lt
  have h1 := b1.toNat_lt
  have h2 := b2.toNat_lt
  have h3 := b3.toNat_lt
  have h4 := b4.toNat_lt
  have h5 := b5.toNat_lt
  have low1 := shift_or_toNat b4 8 8 rfl (by decide) (UInt8.toNat_toUInt64 b5) h5
  have low2 := shift_or_toNat b3 16 16 rfl (by decide) low1 (by omega)
  have low3 := shift_or_toNat b2 24 24 rfl (by decide) low2 (by omega)
  have low4 := shift_or_toNat b1 32 32 rfl (by decide) low3 (by omega)
  have low5 := shift_or_toNat b0 40 40 rfl (by decide) low4 (by omega)
  have spelled : BigEndian.ofBytes [b0, b1, b2, b3, b4, b5] = b0.toNat * 2 ^ 40 + (b1.toNat * 2 ^ 32 +
      (b2.toNat * 2 ^ 24 + (b3.toNat * 2 ^ 16 + (b4.toNat * 2 ^ 8 + b5.toNat)))) := by
    simp only [BigEndian.ofBytes, List.foldl_cons, List.foldl_nil]
    omega
  have size : BigEndian.ofBytes [b0, b1, b2, b3, b4, b5] < 2 ^ 64 := by
    rw [spelled]
    omega
  apply UInt64.toNat_inj.mp
  rw [joinTs6, UInt64.or_assoc, UInt64.or_assoc, UInt64.or_assoc, UInt64.or_assoc, low5,
    UInt64.toNat_ofNat_of_lt' size, spelled]

theorem getElem?_cons_of_lt (inside : offset < m.length) :
    (type :: m)[1 + offset]? = some (m.getD offset 0) := by
  rw [Nat.add_comm 1, List.getElem?_cons_succ, List.getD_eq_getElem?_getD,
    List.getElem?_eq_getElem inside, Option.getD_some]

theorem readTs6Fast_eq (inside : 10 ≤ m.length) :
    readTs6Fast (type :: m) (1 + 4) = some (decodeTs6 m) := by
  match m, inside with
  | _ :: _ :: _ :: _ :: b0 :: b1 :: b2 :: b3 :: b4 :: b5 :: _, _ =>
    exact congrArg some (joinTs6_eq b0 b1 b2 b3 b4 b5)

theorem readAt_take (inside : offset + width ≤ n) :
    BigEndian.readAt (m.take n) offset width = BigEndian.readAt m offset width := by
  rw [BigEndian.readAt, BigEndian.readAt, List.drop_take, List.take_take, min_eq_left (by omega)]

theorem getD_take (inside : offset < n) : (m.take n).getD offset 0 = m.getD offset 0 := by
  rw [List.getD_eq_getElem?_getD, List.getElem?_take_of_lt inside, List.getD_eq_getElem?_getD]

theorem sliceAt_take (inside : offset + width ≤ n) :
    BigEndian.sliceAt (m.take n) offset width = BigEndian.sliceAt m offset width := by
  refine congrArg Vector.ofFn (funext fun i => ?_)
  rw [List.drop_take, getD_take (by omega)]

theorem copySymbolFast_eq (inside : offset + 8 ≤ m.length) :
    copySymbolFast (type :: m) (1 + offset) = some (readStock m offset) := by
  rw [copySymbolFast, loadBytes_cons inside, Option.map_some, sliceAt_take (le_refl 8)]
  rfl

/-- The types that come with a record. -/
def recordTypes : List UInt8 :=
  ['A', 'F', 'E', 'C', 'X', 'D', 'U', 'P', 'Q', 'I', 'S', 'R'].map Char.toUInt8

/-- A record is decoded from its own bytes alone. -/
theorem decode_take (ev : BookEvent) (type : UInt8) (m : List UInt8) :
    decode ev type (m.take (recordSize type)) = decode ev type m := by
  by_cases known : type ∈ recordTypes
  · simp only [recordTypes, List.map_cons, List.map_nil, List.mem_cons, List.not_mem_nil,
      or_false] at known
    rcases known with rfl | rfl | rfl | rfl | rfl | rfl | rfl | rfl | rfl | rfl | rfl | rfl
    all_goals
      simp +decide only [decode, recordSize, if_true, if_false, decodeTs6, readU32, readU64,
        readStock, readAt_take, sliceAt_take, getD_take]
  · simp only [recordTypes, List.map_cons, List.map_nil, List.mem_cons, List.not_mem_nil,
      or_false, not_or] at known
    simp only [decode, known, if_false]

theorem parseMessageReads_eq (payload : List UInt8) (sequence ingestTsNs : UInt64)
    (stats : ParseStats) :
    parseMessageReads payload sequence ingestTsNs stats =
      some (parseMessage payload sequence ingestTsNs stats) := by
  cases payload with
  | nil => rfl
  | cons type m =>
    simp only [parseMessageReads, parseMessage, requireSize, List.length_cons,
      Nat.add_lt_add_iff_right]
    split
    · rfl
    · next long =>
      have inside : 0 + recordSize type ≤ m.length := by omega
      rw [show 1 = 1 + 0 from rfl, loadBytes_cons inside, List.drop_zero]
      simp only [Option.map_some, decode_take]

theorem hotAdd_eq (avx2 : Bool) (ev : BookEvent) (inside : 35 ≤ m.length) :
    hotAdd avx2 (type :: m) ev = some (decode ev 'A'.toUInt8 m) := by
  have block : loadBlock avx2 (type :: m) (1 + 10) = some () := by
    rw [loadBlock, loadBytes_cons (by omega), Option.map_some, ite_self]
  rw [hotAdd, block, readTs6Fast_eq (by omega), readU64Fast_eq (by omega),
    getElem?_cons_of_lt (by omega), readU32Fast_eq (by omega), copySymbolFast_eq (by omega),
    readU32Fast_eq (by omega)]
  rfl

theorem hotExecute_eq (ev : BookEvent) (inside : 30 ≤ m.length) :
    hotExecute (type :: m) ev = some (decode ev 'E'.toUInt8 m) := by
  rw [hotExecute, readTs6Fast_eq (by omega), readU64Fast_eq (by omega), readU32Fast_eq (by omega),
    readU64Fast_eq (by omega)]
  rfl

theorem hotCancel_eq (ev : BookEvent) (inside : 22 ≤ m.length) :
    hotCancel (type :: m) ev = some (decode ev 'X'.toUInt8 m) := by
  rw [hotCancel, readTs6Fast_eq (by omega), readU64Fast_eq (by omega), readU32Fast_eq (by omega)]
  rfl

theorem hotDelete_eq (ev : BookEvent) (inside : 18 ≤ m.length) :
    hotDelete (type :: m) ev = some (decode ev 'D'.toUInt8 m) := by
  rw [hotDelete, readTs6Fast_eq (by omega), readU64Fast_eq (by omega)]
  rfl

/-- One hot case answers as the packed record does. -/
theorem requireSize_eq {read : Option BookEvent} {ev : BookEvent} {stats : ParseStats}
    (same : recordSize type ≤ m.length → read = some (decode ev type m)) :
    requireSize (type :: m) (recordSize type) stats read =
      some (if m.length < recordSize type then (none, stats.malformed)
        else (some (decode ev type m), stats)) := by
  simp only [requireSize, List.length_cons, Nat.add_lt_add_iff_right]
  split
  · rfl
  · next long => rw [same (not_lt.mp long), Option.map_some]

end Reads

/-- The hot path reads nothing outside the payload, and gives the event and the counters
of the scalar parser. -/
theorem parseHotMessageSimd_eq (avx2 : Bool) (payload : List UInt8)
    (sequence ingestTsNs : UInt64) (stats : ParseStats) :
    parseHotMessageSimd avx2 payload sequence ingestTsNs stats =
      some (parseMessage payload sequence ingestTsNs stats) := by
  cases payload with
  | nil => rfl
  | cons type m =>
    simp only [parseHotMessageSimd]
    split_ifs with add execute cancel delete
    · subst add
      exact requireSize_eq (fun inside => hotAdd_eq avx2 _ inside)
    · subst execute
      exact requireSize_eq (fun inside => hotExecute_eq _ inside)
    · subst cancel
      exact requireSize_eq (fun inside => hotCancel_eq _ inside)
    · subst delete
      exact requireSize_eq (fun inside => hotDelete_eq _ inside)
    · exact parseMessageReads_eq _ _ _ _

end Itch50

end FeedHandler
