import FeedHandler.Lib.LimitedStream
import FeedHandler.Phase3.NbboTape
import FeedHandler.Service.NbboQuery
import FeedHandler.Service.TickReplay

/-! The replay service over recorded journals. The catalog counts the records of the book
journal by the size of its file and keeps the quotes of the NBBO journal; ticks are streamed
from the book journal itself. -/
namespace FeedHandler

open AppendFile
open LimitedStream
open LittleEndian

/-- What the service holds of its journals. No path stands for the empty one. -/
structure ReplayCatalog (Path : Type*) where
  bookJournalPath : Path
  nbboJournalPath : Option Path
  bookRecordCount : UInt64 := 0
  nbboRecordCount : UInt64 := 0
  nbboJournalCrc : UInt32 := 0
  nbboEvents : List NbboImage := []

namespace ReplayCatalog

variable {Path : Type*}

/-- `ReplayCatalog::load` on files with these contents. -/
def load (files : Path → Option (List UInt8)) (bookPath : Path) (nbboPath : Option Path) :
    Bool × ReplayCatalog Path :=
  let catalog : ReplayCatalog Path := { bookJournalPath := bookPath, nbboJournalPath := nbboPath }
  match files bookPath with
  | none => (false, catalog)
  | some book =>
    if book.length < journalHeaderBytes then (false, catalog)
    else if (book.length - journalHeaderBytes) % recordBytes ≠ 0 then (false, catalog)
    else
      let catalog := { catalog with
        bookRecordCount := UInt64.ofNat ((book.length - journalHeaderBytes) / recordBytes) }
      match nbboPath with
      | none => (true, catalog)
      | some nbboPath =>
        let read := NbboJournalReader.readFile (files nbboPath)
        if read.opened then
          (true,
            { catalog with
              nbboEvents := read.images
              nbboRecordCount := UInt64.ofNat read.images.length
              nbboJournalCrc := read.reader.payloadCrc })
        else (false, catalog)

/-- The quotes that the catalog holds, if their flags have values of their type. -/
def rows (catalog : ReplayCatalog Path) : Option (List NbboEvent) :=
  catalog.nbboEvents.mapM nbboEvent?

end ReplayCatalog

/-- How a streaming call ends. -/
inductive StreamStatus where
  | ok
  | failedPrecondition (message : String)
  | dataLoss (reason : Option String)
  deriving DecidableEq, Repr

structure StreamNbboRequest where
  symbol : List UInt8 := []
  startTsNs : UInt64 := 0
  endTsNs : UInt64 := 0
  limit : UInt32 := 0

namespace StreamNbboRequest

/-- The quote passes the filters of the request. -/
def admits (request : StreamNbboRequest) (row : NbboEvent) : Bool :=
  if !request.symbol.isEmpty && row.symbolU64 != symbolToU64 request.symbol then false
  else inTsWindow row.exchangeTsNs request.startTsNs request.endTsNs

/-- `StreamNbbo` over the quotes of the catalog: the status and the messages written. -/
def streamNbbo (request : StreamNbboRequest) (client : Client) (rows : List NbboEvent) :
    StreamStatus × List NbboEventMsg :=
  if rows.isEmpty then (.failedPrecondition "NBBO journal not loaded", [])
  else (.ok, (serve request.admits request.limit client 0 rows).1.map nbboEventToProto)

/-- What a call with this status and these messages serves of the quotes: nothing without quotes,
else the first ones that pass the filters, up to a refusal or the limit. -/
def Serves (request : StreamNbboRequest) (client : Client) (rows : List NbboEvent)
    (reply : StreamStatus × List NbboEventMsg) : Prop :=
  (rows = [] → reply = (.failedPrecondition "NBBO journal not loaded", [])) ∧
    (rows ≠ [] → reply.1 = .ok ∧ ∃ served : List NbboEvent × Ending,
      reply.2 = served.1.map nbboEventToProto ∧
        LimitedStream.Serves request.limit client 0 (rows.filter request.admits) served)

theorem streamNbbo_serves (request : StreamNbboRequest) (client : Client) (rows : List NbboEvent) :
    request.Serves client rows (request.streamNbbo client rows) := by
  constructor
  · rintro rfl
    rfl
  · intro some_rows
    have filled : rows.isEmpty = false := by simpa using some_rows
    simp only [streamNbbo, filled, Bool.false_eq_true, if_false]
    exact ⟨trivial, _, rfl,
      serve_serves request.admits request.limit client UInt32.lt_iff_toNat_lt.mp rows⟩

end StreamNbboRequest

structure BookEventMsg where
  venue : UInt32 := 0
  eventType : UInt32 := 0
  sequence : UInt64 := 0
  exchangeTsNs : UInt64 := 0
  ingestTsNs : UInt64 := 0
  symbol : List UInt8 := []
  orderId : UInt64 := 0
  matchId : UInt64 := 0
  referenceOrderId : UInt64 := 0
  qty : UInt32 := 0
  price : UInt32 := 0
  prevQty : UInt32 := 0
  prevPrice : UInt32 := 0
  side : UInt32 := 0
  rawType : UInt32 := 0
  mpid : Option (List UInt8) := none
  deriving DecidableEq, Repr

namespace EventImage

def symbolU64 (image : EventImage) : UInt64 :=
  SymbolKey.asU64 ⟨BigEndian.sliceAt image.val 32 8⟩

def exchangeTsNs (image : EventImage) : UInt64 := word64At image.val 16

/-- `book_event_to_proto`. The enumerations have a byte as their type, so every value of it is
sent on as it is. -/
def toProto (image : EventImage) : BookEventMsg where
  venue := (image.val.getD 0 0).toUInt32
  eventType := (image.val.getD 1 0).toUInt32
  sequence := word64At image.val 8
  exchangeTsNs := image.exchangeTsNs
  ingestTsNs := word64At image.val 24
  symbol := symbolToString image.symbolU64
  orderId := word64At image.val 40
  matchId := word64At image.val 48
  referenceOrderId := word64At image.val 56
  qty := word32At image.val 64
  price := word32At image.val 68
  prevQty := word32At image.val 72
  prevPrice := word32At image.val 76
  side := (image.val.getD 80 0).toUInt32
  rawType := (image.val.getD 86 0).toUInt32
  mpid := if image.val.getD 85 0 = 0 then none else some (BigEndian.sliceAt image.val 81 4).toList

end EventImage

/-- The message for an event. -/
def bookEventToProto (ev : BookEvent) : BookEventMsg where
  venue := ev.venue.code.toUInt32
  eventType := ev.type.code.toUInt32
  sequence := ev.sequence
  exchangeTsNs := ev.exchangeTsNs
  ingestTsNs := ev.ingestTsNs
  symbol := symbolToString ev.symbol.asU64
  orderId := ev.orderId
  matchId := ev.matchId
  referenceOrderId := ev.referenceOrderId
  qty := ev.qty
  price := ev.price
  prevQty := ev.prevQty
  prevPrice := ev.prevPrice
  side := ev.side.code.toUInt32
  rawType := ev.rawType.toUInt32
  mpid := ev.mpid.map Vector.toList

end FeedHandler
