import FeedHandler.Core.Crc32
import FeedHandler.Lib.Run
import FeedHandler.Phase3.NbboBest
import FeedHandler.Phase3.OrderBookSpec

/-! The replay from book events to the journal of consolidated quotes. The consolidator
hears of an event only if the event changed its venue's top, and a record is written only
if that changed the consolidated quote. -/
namespace FeedHandler

structure NbboEvent where
  symbolU64 : UInt64 := 0
  exchangeTsNs : UInt64 := 0
  ingestTsNs : UInt64 := 0
  hasBid : Bool := false
  hasAsk : Bool := false
  bidPrice : UInt32 := 0
  bidQty : UInt32 := 0
  askPrice : UInt32 := 0
  askQty : UInt32 := 0
  bidVenue : UInt8 := 0
  askVenue : UInt8 := 0
  bidVenueSequence : UInt64 := 0
  askVenueSequence : UInt64 := 0
  deriving DecidableEq, Repr

def toNbboEvent (symbol : UInt64) (nbbo : Nbbo) (exchangeTsNs ingestTsNs : UInt64) : NbboEvent where
  symbolU64 := symbol
  exchangeTsNs := exchangeTsNs
  ingestTsNs := ingestTsNs
  hasBid := nbbo.hasBid
  hasAsk := nbbo.hasAsk
  bidPrice := nbbo.bidPrice
  bidQty := nbbo.bidQty
  askPrice := nbbo.askPrice
  askQty := nbbo.askQty
  bidVenue := nbbo.bidVenue
  askVenue := nbbo.askVenue
  bidVenueSequence := nbbo.bidVenueSequence
  askVenueSequence := nbbo.askVenueSequence

structure NbboJournalPipelineStats where
  bookEventsIn : UInt64 := 0
  nbboEmitted : UInt64 := 0
  topChanges : UInt64 := 0
  journalCrc : UInt32 := 0
  deriving DecidableEq, Repr

/-- The state of a replay whose journal file is open. -/
structure NbboReplay (layout : ProbeLayout UInt64) where
  books : OrderBookEngine layout
  nbbo : NbboConsolidator := {}
  journal : List NbboEvent := []
  stats : NbboJournalPipelineStats := {}

namespace NbboReplay

variable {layout : ProbeLayout UInt64}

def start (layout : ProbeLayout UInt64) : NbboReplay layout where
  books := .create layout

/-- The record of the quote that `nbbo` has for the symbol of an event. -/
def recordFor (nbbo : NbboConsolidator) (ev : BookEvent) : NbboEvent :=
  toNbboEvent ev.symbol.asU64 (nbbo.current ev.symbol.asU64) ev.exchangeTsNs ev.ingestTsNs

/-- One round of the replay loop. The checksum runs over the bytes of a record in memory;
`image` gives them, with the padding the compiler puts between the fields. -/
def onEvent (image : NbboEvent → List UInt8) (s : NbboReplay layout) (ev : BookEvent) :
    NbboReplay layout :=
  let applied := s.books.onEvent ev
  let stats := { s.stats with bookEventsIn := s.stats.bookEventsIn + 1 }
  if !applied.2.changedTop then { s with books := applied.1, stats := stats }
  else
    let stats := { stats with topChanges := stats.topChanges + 1 }
    let updated := s.nbbo.update ev.symbol.asU64 ev.venue applied.2.topAfter ev.sequence
    if !updated.2 then { s with books := applied.1, nbbo := updated.1, stats := stats }
    else
      let record := recordFor updated.1 ev
      { books := applied.1
        nbbo := updated.1
        journal := s.journal ++ [record]
        stats := { stats with
          journalCrc := crc32Update stats.journalCrc (image record)
          nbboEmitted := stats.nbboEmitted + 1 } }

def replayToJournal (image : NbboEvent → List UInt8) (layout : ProbeLayout UInt64)
    (events : List BookEvent) : NbboReplay layout :=
  events.foldl (onEvent image) (start layout)

end NbboReplay

namespace OrderBookEngine

variable {layout : ProbeLayout UInt64} {e : OrderBookEngine layout} {ev : BookEvent}

theorem step_topOfBook_other {venue : Venue} {symbol : UInt64}
    (other : ¬ (venue = ev.venue ∧ symbol = ev.symbol.asU64)) :
    (e.step ev).topOfBook venue symbol = e.topOfBook venue symbol := by
  simp only [topOfBook, step_bookAfter, setBook_book, if_neg other]

/-- What the result of an event tells about its own top. -/
theorem onEvent_top (e : OrderBookEngine layout) (ev : BookEvent) :
    (e.onEvent ev).2.topAfter = (e.step ev).topOfBook ev.venue ev.symbol.asU64 ∧
      ((e.onEvent ev).2.changedTop = true ↔
        e.topOfBook ev.venue ev.symbol.asU64 ≠ (e.step ev).topOfBook ev.venue ev.symbol.asU64) := by
  refine ⟨rfl, ?_⟩
  simp only [onEvent, bne_iff_ne]
  rfl

end OrderBookEngine

namespace NbboReplay
open NbboConsolidator

variable {layout : ProbeLayout UInt64} {image : NbboEvent → List UInt8} {s : NbboReplay layout}
  {ev : BookEvent} {events : List BookEvent} {symbol : UInt64} {venue : Venue}

/-- What the consolidator hears of an event. -/
def heard (s : NbboReplay layout) (ev : BookEvent) : NbboConsolidator × Bool :=
  s.nbbo.update ev.symbol.asU64 ev.venue (s.books.onEvent ev).2.topAfter ev.sequence

theorem onEvent_books : (onEvent image s ev).books = s.books.step ev := by
  simp only [onEvent]
  split
  · rfl
  · split <;> rfl

theorem onEvent_quiet (image : NbboEvent → List UInt8)
    (quiet : (s.books.onEvent ev).2.changedTop = false) :
    (onEvent image s ev).nbbo = s.nbbo ∧ (onEvent image s ev).journal = s.journal := by
  simp only [onEvent, quiet]
  exact ⟨rfl, rfl⟩

theorem onEvent_loud (image : NbboEvent → List UInt8)
    (loud : (s.books.onEvent ev).2.changedTop = true) :
    (onEvent image s ev).nbbo = (s.heard ev).1 ∧
      (onEvent image s ev).journal =
        s.journal ++ if (s.heard ev).2 = true then [recordFor (s.heard ev).1 ev] else [] := by
  simp only [onEvent, heard, loud, Bool.not_true]
  rw [if_neg Bool.false_ne_true]
  split
  · next silent =>
    have same := Bool.not_eq_true' _ |>.mp silent
    simp only [same, if_neg Bool.false_ne_true, List.append_nil, and_self]
  · next spoken =>
    have changed := Bool.not_eq_false _ |>.mp (mt (Bool.not_eq_true' _).mpr spoken)
    simp only [changed, if_true, and_self]

/-- The consolidator's copy of every top is the engine's, and every quote is computed from
these copies. -/
structure Coherent (s : NbboReplay layout) : Prop where
  cache : s.nbbo.CacheSound
  tops : ∀ symbol venue,
    ((s.nbbo.stateOf symbol).venues venue).top = s.books.topOfBook venue symbol
  computed : ∀ symbol, (s.nbbo.stateOf symbol).nbbo = compute (s.nbbo.stateOf symbol)

theorem start_coherent : (start layout).Coherent where
  cache := initial_cacheSound
  tops := fun _ _ => rfl
  computed := fun _ => rfl

theorem Coherent.heard_spec (coherent : s.Coherent) (ev : BookEvent) :
    (s.heard ev).1.CacheSound ∧
      (∀ other, (s.heard ev).1.stateOf other =
        if other = ev.symbol.asU64 then
          updateState (s.nbbo.stateOf ev.symbol.asU64) ev.venue (s.books.onEvent ev).2.topAfter
            ev.sequence
        else s.nbbo.stateOf other) ∧
      ((s.heard ev).2 = true ↔
        (s.heard ev).1.current ev.symbol.asU64 ≠ s.nbbo.current ev.symbol.asU64) :=
  coherent.cache.update_spec _ _ _ _

theorem Coherent.next (coherent : s.Coherent) (image : NbboEvent → List UInt8)
    (ev : BookEvent) : (onEvent image s ev).Coherent := by
  obtain ⟨after, changed⟩ := s.books.onEvent_top ev
  cases heard : (s.books.onEvent ev).2.changedTop with
  | false =>
    obtain ⟨nbbo, _⟩ := onEvent_quiet image heard
    refine ⟨?_, ?_, ?_⟩
    · rw [nbbo]
      exact coherent.cache
    · intro symbol venue
      rw [nbbo, onEvent_books, coherent.tops]
      by_cases own : venue = ev.venue ∧ symbol = ev.symbol.asU64
      · rw [own.1, own.2]
        exact not_not.mp fun differ => absurd (changed.mpr differ) (by simp [heard])
      · exact (OrderBookEngine.step_topOfBook_other own).symm
    · intro symbol
      rw [nbbo]
      exact coherent.computed symbol
  | true =>
    obtain ⟨nbbo, _⟩ := onEvent_loud image heard
    obtain ⟨cache, states, _⟩ := coherent.heard_spec ev
    refine ⟨by rw [nbbo]; exact cache, ?_, ?_⟩
    · intro symbol venue
      rw [nbbo, onEvent_books, states]
      by_cases here : symbol = ev.symbol.asU64
      · subst here
        rw [if_pos rfl]
        by_cases own : venue = ev.venue
        · subst own
          simp only [updateState, Function.update_self, VenueTop.top_stampTop, after]
        · simp only [updateState, Function.update_of_ne own, coherent.tops]
          exact (OrderBookEngine.step_topOfBook_other fun both => own both.1).symm
      · rw [if_neg here, coherent.tops]
        exact (OrderBookEngine.step_topOfBook_other fun both => here both.2).symm
    · intro symbol
      rw [nbbo, states]
      split
      · rfl
      · exact coherent.computed symbol

theorem run_coherent (image : NbboEvent → List UInt8) (layout : ProbeLayout UInt64)
    (events : List BookEvent) : (replayToJournal image layout events).Coherent :=
  Run.invariant (fun _ ev coherent => coherent.next image ev) events start_coherent

/-- The bid of a consolidated quote is the best of the venues' bids: the highest price, at
the venue with the lowest index that has it, with that venue's quantity. -/
structure BidExact (tops : Venue → TopOfBook) (nbbo : Nbbo) : Prop where
  present : nbbo.hasBid = true ↔ ∃ v, (tops v).hasBid = true
  best : nbbo.hasBid = true → ∃ v, (tops v).hasBid = true ∧ nbbo.bidVenue = v.code ∧
    nbbo.bidPrice = (tops v).bidPrice ∧ nbbo.bidQty = (tops v).bidQty ∧
    ∀ w, (tops w).hasBid = true → (tops w).bidPrice ≤ nbbo.bidPrice ∧
      (w.code < v.code → (tops w).bidPrice < nbbo.bidPrice)

/-- The ask of a consolidated quote is the best of the venues' asks, the lowest price. -/
structure AskExact (tops : Venue → TopOfBook) (nbbo : Nbbo) : Prop where
  present : nbbo.hasAsk = true ↔ ∃ v, (tops v).hasAsk = true
  best : nbbo.hasAsk = true → ∃ v, (tops v).hasAsk = true ∧ nbbo.askVenue = v.code ∧
    nbbo.askPrice = (tops v).askPrice ∧ nbbo.askQty = (tops v).askQty ∧
    ∀ w, (tops w).hasAsk = true → nbbo.askPrice ≤ (tops w).askPrice ∧
      (w.code < v.code → nbbo.askPrice < (tops w).askPrice)

/-- The best quote of a side, with its venue and what the consolidator copied from it. -/
theorem Coherent.best (coherent : s.Coherent) (symbol : UInt64) (side : QuoteSide) :
    Quote.BestOf side.rank
      (fun venue => ((s.nbbo.stateOf symbol).venues venue).side venue side)
      ((s.nbbo.current symbol).side side) := by
  rw [current_eq, coherent.computed]
  exact compute_best _ side

theorem Coherent.bidExact (coherent : s.Coherent) (symbol : UInt64) :
    BidExact (fun venue => s.books.topOfBook venue symbol) (s.nbbo.current symbol) := by
  have best := coherent.best symbol .bid
  simp only [← coherent.tops]
  refine ⟨best.present, fun shown => ?_⟩
  obtain ⟨v, present, venue, price, qty, above⟩ := best.attained shown
  refine ⟨v, present, venue, price, qty, fun w other => ?_⟩
  obtain ⟨below, before⟩ := above w other
  exact ⟨Int.ofNat_le.mp below, fun earlier => Int.ofNat_lt.mp (before earlier)⟩

theorem Coherent.askExact (coherent : s.Coherent) (symbol : UInt64) :
    AskExact (fun venue => s.books.topOfBook venue symbol) (s.nbbo.current symbol) := by
  have best := coherent.best symbol .ask
  simp only [← coherent.tops]
  refine ⟨best.present, fun shown => ?_⟩
  obtain ⟨v, present, venue, price, qty, above⟩ := best.attained shown
  refine ⟨v, present, venue, price, qty, fun w other => ?_⟩
  obtain ⟨below, before⟩ := above w other
  exact ⟨Int.ofNat_le.mp (Int.neg_le_neg_iff.mp below),
    fun earlier => Int.ofNat_lt.mp (Int.neg_lt_neg_iff.mp (before earlier))⟩

/-- An event changes no other symbol's quote, and is recorded exactly when it changes the
quote of its own. -/
theorem Coherent.journal_step (coherent : s.Coherent) (image : NbboEvent → List UInt8)
    (ev : BookEvent) :
    (∀ symbol, symbol ≠ ev.symbol.asU64 →
      (onEvent image s ev).nbbo.current symbol = s.nbbo.current symbol) ∧
    (onEvent image s ev).journal = s.journal ++
      if (onEvent image s ev).nbbo.current ev.symbol.asU64 ≠ s.nbbo.current ev.symbol.asU64 then
        [recordFor (onEvent image s ev).nbbo ev]
      else [] := by
  cases heard : (s.books.onEvent ev).2.changedTop with
  | false =>
    obtain ⟨nbbo, journal⟩ := onEvent_quiet image heard
    rw [nbbo, journal]
    simp
  | true =>
    obtain ⟨nbbo, journal⟩ := onEvent_loud image heard
    obtain ⟨_, states, reported⟩ := coherent.heard_spec ev
    rw [nbbo, journal]
    refine ⟨fun symbol other => ?_, ?_⟩
    · rw [current_eq, states, if_neg other, current_eq]
    · by_cases changed : (s.heard ev).2 = true
      · rw [if_pos changed, if_pos (reported.mp changed)]
      · rw [if_neg changed, if_neg (mt reported.mpr changed)]

/-- After every event and for every symbol the consolidated quote is the best of the
engine's tops, and the journal has a record of exactly the events that changed it. -/
theorem nbbo_coherent (image : NbboEvent → List UInt8) (layout : ProbeLayout UInt64)
    (events : List BookEvent) :
    let s := replayToJournal image layout events
    (∀ symbol, BidExact (fun venue => s.books.topOfBook venue symbol) (s.nbbo.current symbol) ∧
      AskExact (fun venue => s.books.topOfBook venue symbol) (s.nbbo.current symbol)) ∧
    ∀ ev, let next := replayToJournal image layout (events ++ [ev])
      (∀ symbol, symbol ≠ ev.symbol.asU64 → next.nbbo.current symbol = s.nbbo.current symbol) ∧
      next.journal = s.journal ++
        if next.nbbo.current ev.symbol.asU64 ≠ s.nbbo.current ev.symbol.asU64 then
          [recordFor next.nbbo ev]
        else [] := by
  have coherent := run_coherent image layout events
  refine ⟨fun symbol => ⟨coherent.bidExact symbol, coherent.askExact symbol⟩, fun ev => ?_⟩
  have last : replayToJournal image layout (events ++ [ev]) =
      onEvent image (replayToJournal image layout events) ev := by
    simp only [replayToJournal, List.foldl_append, List.foldl_cons, List.foldl_nil]
  simp only [last]
  exact coherent.journal_step image ev

end NbboReplay
end FeedHandler
