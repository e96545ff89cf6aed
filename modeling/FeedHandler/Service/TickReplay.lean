import FeedHandler.Live.Lowering
import FeedHandler.Proto.CboePitch
import FeedHandler.Service.SymbolCodec

/-! Queries for recorded ticks. The service compares the key of a recorded event with the
key it packs from the text of the query, so a query finds what a feed has recorded only if
the feed's own encoder agrees with the codec byte for byte. -/
namespace FeedHandler

structure StreamTicksRequest where
  symbol : List UInt8 := []
  startTsNs : UInt64 := 0
  endTsNs : UInt64 := 0
  limit : UInt32 := 0

def inTsWindow (ts startTs endTs : UInt64) : Bool :=
  if 0 < startTs ∧ ts < startTs then false
  else if 0 < endTs ∧ endTs < ts then false
  else true

namespace StreamTicksRequest

def filterSymbol (request : StreamTicksRequest) : Bool := !request.symbol.isEmpty

def wantU64 (request : StreamTicksRequest) : UInt64 :=
  if request.filterSymbol then symbolToU64 request.symbol else 0

/-- The event passes the filters of the query. -/
def admits (request : StreamTicksRequest) (ev : BookEvent) : Bool :=
  if request.filterSymbol && ev.symbol.asU64 != request.wantU64 then false
  else inTsWindow ev.exchangeTsNs request.startTsNs request.endTsNs

/-- A query for a symbol alone admits exactly the events under its key. -/
theorem admits_symbol {symbol : List UInt8} (named : symbol ≠ []) (ev : BookEvent) :
    admits { symbol } ev = true ↔ ev.symbol.asU64 = symbolToU64 symbol := by
  have filtered : filterSymbol { symbol } = true := by
    simpa [filterSymbol] using named
  simp [admits, wantU64, filtered, inTsWindow]

end StreamTicksRequest

namespace CboePitch

/-- The width of the symbol field of a record type; the other types carry no symbol. -/
def symbolWidth (type : UInt8) : Nat :=
  if type = 'A'.toUInt8 ∨ type = 'P'.toUInt8 then 6
  else if type = 'd'.toUInt8 ∨ type = '1'.toUInt8 ∨ type = 'r'.toUInt8 ∨ type = '2'.toUInt8 then 8
  else 0

theorem decode_symbol (ev : BookEvent) {type : UInt8} (m : List UInt8)
    (carried : symbolWidth type ≠ 0) :
    (decode ev type m).symbol = copySymbol (field m 28 (symbolWidth type)) := by
  have types : type = 'A'.toUInt8 ∨ type = 'P'.toUInt8 ∨ type = 'd'.toUInt8 ∨
      type = '1'.toUInt8 ∨ type = 'r'.toUInt8 ∨ type = '2'.toUInt8 := by
    by_contra none
    simp only [not_or] at none
    exact carried (by simp [symbolWidth, none])
  rcases types with rfl | rfl | rfl | rfl | rfl | rfl <;> rfl

/-- The record's symbol field for a text: its characters that have room, and blanks to the
end of the field. -/
def symbolField (type : UInt8) (text : List UInt8) : List UInt8 :=
  text.take (symbolWidth type) ++ List.replicate (symbolWidth type - text.length) blank

theorem copySymbol_symbolField {type : UInt8} {text : List UInt8}
    (room : text.length ≤ symbolWidth type) :
    copySymbol (symbolField type text) = symbolKeyFromView text := by
  simp only [copySymbol, symbolKeyFromView, symbolField, List.take_of_length_le room]
  congr 2
  funext i
  simp only [List.getD_eq_getElem?_getD, List.getElem?_append, List.getElem?_replicate, blank]
  split
  · next inside => simp [inside]
  · split <;> rfl

end CboePitch

namespace Bitfinex

/-- The live feed pads with NUL, the codec with blanks: they agree where neither pads. -/
theorem symbolFromWire_eq_iff (wire : List UInt8) :
    symbolFromWire wire = symbolKeyFromView wire ↔ 8 ≤ wire.length := by
  constructor
  · intro same
    by_contra short
    have last := congrArg (fun key : SymbolKey => key.bytes.toList.getD 7 0) same
    simp [symbolFromWire, symbolKeyFromView, BigEndian.sliceAt, blank,
      show wire.length ≤ 7 by omega] at last
    exact absurd last (by decide)
  · intro long
    simp only [symbolFromWire, symbolKeyFromView, BigEndian.sliceAt, List.drop_zero]
    congr 2
    funext i
    rw [if_pos (by omega)]

end Bitfinex

/-- Where a recorded key comes from: the live feed, or a Cboe record of a type. -/
inductive SymbolFeed where
  | bitfinex
  | cboe (type : UInt8)
  deriving DecidableEq

/-- The key that the feed records for a text. -/
def SymbolFeed.encode : SymbolFeed → List UInt8 → SymbolKey
  | .bitfinex, text => Bitfinex.symbolFromWire text
  | .cboe type, text => CboePitch.copySymbol (CboePitch.symbolField type text)

/-- The text has room where the feed writes it. -/
def SymbolFeed.Carries : SymbolFeed → List UInt8 → Prop
  | .bitfinex, _ => True
  | .cboe type, text => text.length ≤ CboePitch.symbolWidth type

/-- The feed's encoder and the codec agree on the key unless the live feed has a text to pad. -/
theorem SymbolFeed.encode_eq_iff (feed : SymbolFeed) (symbol : SymbolText)
    (carried : feed.Carries symbol.text) :
    (feed.encode symbol.text).asU64 = symbolToU64 symbol.text ↔
      feed ≠ .bitfinex ∨ symbol.text.length = 8 := by
  rw [symbolToU64, SymbolKey.asU64_inj]
  cases feed with
  | bitfinex =>
    have short := symbol.short
    simp only [SymbolFeed.encode, Bitfinex.symbolFromWire_eq_iff, ne_eq, not_true, false_or]
    omega
  | cboe type =>
    simp [SymbolFeed.encode, CboePitch.copySymbol_symbolField carried]

/-- The feed's encoder and the codec agree on the key, and the key gives the text back,
unless the live feed has a text to pad. -/
theorem one_symbol_one_key_iff (feed : SymbolFeed) (symbol : SymbolText)
    (carried : feed.Carries symbol.text) :
    (feed.encode symbol.text).asU64 = symbolToU64 symbol.text ∧
        symbolToString (feed.encode symbol.text).asU64 = symbol.text ↔
      feed ≠ .bitfinex ∨ symbol.text.length = 8 := by
  have unpacked := symbol.symbolToString_symbolToU64
  rw [← feed.encode_eq_iff symbol carried]
  exact ⟨And.left, fun same => ⟨same, by rw [same, unpacked]⟩⟩

def aapl : SymbolText where
  text := ['A'.toUInt8, 'A'.toUInt8, 'P'.toUInt8, 'L'.toUInt8]
  nonempty := by decide
  short := by decide
  plain := SymbolText.plain_of_all (by decide)

/-- A Cboe short add records the key that a query for the symbol looks for. -/
theorem one_symbol_one_key_aapl :
    (SymbolFeed.encode (.cboe 'A'.toUInt8) aapl.text).asU64 = symbolToU64 aapl.text ∧
      symbolToString (SymbolFeed.encode (.cboe 'A'.toUInt8) aapl.text).asU64 = aapl.text :=
  (one_symbol_one_key_iff (.cboe 'A'.toUInt8) aapl (by decide : 4 ≤ 6)).mpr (.inl (by decide))

def tBtcUsd : SymbolText where
  text := ['t'.toUInt8, 'B'.toUInt8, 'T'.toUInt8, 'C'.toUInt8, 'U'.toUInt8, 'S'.toUInt8,
    'D'.toUInt8]
  nonempty := by decide
  short := by decide
  plain := SymbolText.plain_of_all (by decide)

/-- The live feed's own symbol, of seven characters, is recorded with a NUL at its end. -/
theorem live_symbol_key_differs :
    SymbolFeed.Carries .bitfinex tBtcUsd.text ∧
      (SymbolFeed.encode .bitfinex tBtcUsd.text).asU64 ≠ symbolToU64 tBtcUsd.text ∧
      symbolToString (SymbolFeed.encode .bitfinex tBtcUsd.text).asU64 = tBtcUsd.text ++ [0] := by
  refine ⟨trivial, by decide +kernel, by decide +kernel⟩

/-- The events that the feed makes of rows or records with this symbol. -/
inductive SymbolFeed.Records (D : Type*) [Binary64 D] :
    SymbolFeed → List UInt8 → BookEvent → Prop where
  | bitfinex {row : Bitfinex.BookRow D} {sequence tsNs : UInt64} {text : List UInt8}
    {onBook : Bitfinex.OnBookTracker} {stats : Bitfinex.LoweringStats} {ev : BookEvent}
    (lowered : ev ∈ (Bitfinex.lowerRow row sequence tsNs text onBook stats).events) :
    Records D .bitfinex text ev
  | cboe {type : UInt8} {text record : List UInt8} {sequence ingestTsNs : UInt64}
    {stats : ParseStats} {ev : BookEvent} (typed : record.getD 8 0 = type)
    (spelled : CboePitch.field record 28 (CboePitch.symbolWidth type) =
      CboePitch.symbolField type text)
    (parsed : (CboePitch.parseMessage record sequence ingestTsNs stats).1 = some ev) :
    Records D (.cboe type) text ev

theorem Bitfinex.lowerRow_symbol {D : Type*} [Binary64 D] {row : BookRow D}
    {sequence tsNs : UInt64} {wire : List UInt8} {onBook : OnBookTracker} {stats : LoweringStats}
    {ev : BookEvent} (lowered : ev ∈ (lowerRow row sequence tsNs wire onBook stats).events) :
    ev.symbol = symbolFromWire wire := by
  unfold lowerRow at lowered
  split at lowered
  · split at lowered
    · rw [List.mem_singleton.mp lowered]
      rfl
    · exact absurd lowered List.not_mem_nil
  · split at lowered
    · exact absurd lowered List.not_mem_nil
    · split at lowered
      · rw [List.mem_singleton.mp lowered]
        rfl
      · rw [List.mem_singleton.mp lowered]
        rfl

theorem CboePitch.parseMessage_symbol {record : List UInt8} {sequence ingestTsNs : UInt64}
    {stats : ParseStats} {ev : BookEvent} (carried : symbolWidth (record.getD 8 0) ≠ 0)
    (parsed : (parseMessage record sequence ingestTsNs stats).1 = some ev) :
    ev.symbol = copySymbol (field record 28 (symbolWidth (record.getD 8 0))) := by
  simp only [parseMessage] at parsed
  rw [← decode_symbol _ record carried]
  split at parsed
  · cases parsed
  · split at parsed
    · rw [← Option.some.inj parsed]
    · split at parsed
      · cases parsed
      · rw [← Option.some.inj parsed]

/-- What a feed records of a symbol is under the feed's key for it. -/
theorem SymbolFeed.Records.symbol {D : Type*} [Binary64 D] {feed : SymbolFeed}
    {text : List UInt8} {ev : BookEvent} (recorded : feed.Records D text ev)
    (named : text ≠ []) (carried : feed.Carries text) : ev.symbol = feed.encode text := by
  cases recorded with
  | bitfinex lowered => exact Bitfinex.lowerRow_symbol lowered
  | cboe typed spelled parsed =>
    subst typed
    have width : CboePitch.symbolWidth _ ≠ 0 :=
      (Nat.lt_of_lt_of_le (List.length_pos_of_ne_nil named) carried).ne'
    rw [CboePitch.parseMessage_symbol width parsed, spelled]
    rfl

end FeedHandler
