import FeedHandler.Phase3.NbboReplay
import FeedHandler.Service.SymbolCodec

/-! Queries for the consolidated quote of a symbol at a time. The service scans the recorded
quotes for the latest one up to that time; of quotes recorded at one time it keeps the first,
although the last of them is the one that stood afterwards. -/
namespace FeedHandler

structure NbboEventMsg where
  symbol : List UInt8 := []
  exchangeTsNs : UInt64 := 0
  ingestTsNs : UInt64 := 0
  hasBid : Bool := false
  hasAsk : Bool := false
  bidPrice : UInt32 := 0
  bidQty : UInt32 := 0
  askPrice : UInt32 := 0
  askQty : UInt32 := 0
  bidVenue : UInt32 := 0
  askVenue : UInt32 := 0
  bidVenueSequence : UInt64 := 0
  askVenueSequence : UInt64 := 0
  deriving DecidableEq, Repr

structure QueryNbboRequest where
  symbol : List UInt8 := []
  timestampNs : UInt64 := 0

structure NbboSnapshot where
  found : Bool := false
  nbbo : NbboEventMsg := {}
  deriving DecidableEq, Repr

inductive QueryStatus where
  | ok
  | failedPrecondition (message : String)
  deriving DecidableEq, Repr

def nbboEventToProto (ev : NbboEvent) : NbboEventMsg where
  symbol := symbolToString ev.symbolU64
  exchangeTsNs := ev.exchangeTsNs
  ingestTsNs := ev.ingestTsNs
  hasBid := ev.hasBid
  hasAsk := ev.hasAsk
  bidPrice := ev.bidPrice
  bidQty := ev.bidQty
  askPrice := ev.askPrice
  askQty := ev.askQty
  bidVenue := ev.bidVenue.toUInt32
  askVenue := ev.askVenue.toUInt32
  bidVenueSequence := ev.bidVenueSequence
  askVenueSequence := ev.askVenueSequence

namespace QueryNbboRequest

/-- The best record so far, and one more. -/
def bestRow (wantU64 ts : UInt64) (best : Option NbboEvent) (row : NbboEvent) : Option NbboEvent :=
  if row.symbolU64 ≠ wantU64 then best
  else if row.exchangeTsNs > ts then best
  else
    match best with
    | none => some row
    | some held => if row.exchangeTsNs > held.exchangeTsNs then some row else some held

def best (request : QueryNbboRequest) (rows : List NbboEvent) : Option NbboEvent :=
  rows.foldl (bestRow (symbolToU64 request.symbol) request.timestampNs) none

/-- `QueryNbbo` over the recorded quotes of the catalog: the status, and the response that was
passed in, filled. -/
def queryNbbo (request : QueryNbboRequest) (rows : List NbboEvent) (response : NbboSnapshot) :
    QueryStatus × NbboSnapshot :=
  if rows.isEmpty then (.failedPrecondition "NBBO journal not loaded", response)
  else
    match request.best rows with
    | none => (.ok, { response with found := false })
    | some row => (.ok, { response with found := true, nbbo := nbboEventToProto row })

/-- The record belongs to the symbol of the query and is not later than its time. -/
def admits (request : QueryNbboRequest) (row : NbboEvent) : Bool :=
  row.symbolU64 = symbolToU64 request.symbol ∧ row.exchangeTsNs ≤ request.timestampNs

/-- The records that a query asks about, in the order of the journal. -/
def matching (request : QueryNbboRequest) (rows : List NbboEvent) : List NbboEvent :=
  rows.filter request.admits

end QueryNbboRequest

/-- The response to a query that has found this record, or none. -/
def NbboSnapshot.ofRow : Option NbboEvent → NbboSnapshot
  | none => {}
  | some row => { found := true, nbbo := nbboEventToProto row }

/-- The times of each symbol's records do not decrease. -/
def RecordedInOrder (rows : List NbboEvent) : Prop :=
  rows.Pairwise fun a b => a.symbolU64 = b.symbolU64 → a.exchangeTsNs ≤ b.exchangeTsNs

def NbboEvent.timeKey (row : NbboEvent) : Nat := row.exchangeTsNs.toNat

/-- The consolidated quote that a record holds. -/
def NbboEvent.quote (row : NbboEvent) : Nbbo where
  hasBid := row.hasBid
  hasAsk := row.hasAsk
  bidPrice := row.bidPrice
  bidQty := row.bidQty
  askPrice := row.askPrice
  askQty := row.askQty
  bidVenue := row.bidVenue
  askVenue := row.askVenue
  bidVenueSequence := row.bidVenueSequence
  askVenueSequence := row.askVenueSequence

namespace QueryNbboRequest

variable {request : QueryNbboRequest} {rows : List NbboEvent} {row : NbboEvent}

theorem bestRow_eq (best : Option NbboEvent) (row : NbboEvent) :
    bestRow (symbolToU64 request.symbol) request.timestampNs best row =
      if request.admits row then FirstBest.pick NbboEvent.timeKey best row else best := by
  by_cases own : row.symbolU64 = symbolToU64 request.symbol
  · by_cases late : row.exchangeTsNs > request.timestampNs
    · simp [bestRow, admits, own, late]
    · have early : row.exchangeTsNs ≤ request.timestampNs := UInt64.not_lt.mp late
      have admitted : request.admits row = true := by simp [admits, own, early]
      simp only [bestRow, own, ne_eq, not_true, if_false, if_neg late, admitted, if_true]
      cases best with
      | none => rfl
      | some held => exact if_congr UInt64.lt_iff_toNat_lt rfl rfl
  · simp [bestRow, admits, own]

/-- The loop of the service is the scan for the first record with the latest time. -/
theorem best_eq_scan (request : QueryNbboRequest) (rows : List NbboEvent) :
    request.best rows = FirstBest.scan NbboEvent.timeKey (request.matching rows) := by
  have rounds : bestRow (symbolToU64 request.symbol) request.timestampNs =
      fun best row => if request.admits row then FirstBest.pick NbboEvent.timeKey best row
        else best := funext₂ bestRow_eq
  rw [best, FirstBest.scan, matching, List.foldl_filter, rounds]

/-- What a caller gets, whose response is a fresh one. -/
theorem queryNbbo_response (request : QueryNbboRequest) (rows : List NbboEvent) :
    (request.queryNbbo rows {}).2 = .ofRow (request.best rows) := by
  unfold queryNbbo
  cases rows with
  | nil => rfl
  | cons row rest =>
    simp only [List.isEmpty_cons, Bool.false_eq_true, if_false]
    cases request.best (row :: rest) <;> rfl

/-- A query is answered exactly if the catalog has quotes. -/
theorem queryNbbo_status (request : QueryNbboRequest) (rows : List NbboEvent) :
    (request.queryNbbo rows {}).1 = .ok ↔ rows ≠ [] := by
  unfold queryNbbo
  cases rows with
  | nil => simp
  | cons row rest =>
    simp only [List.isEmpty_cons, Bool.false_eq_true, if_false]
    cases request.best (row :: rest) <;> simp

end QueryNbboRequest

namespace NbboReplay

variable {layout : ProbeLayout UInt64} {image : NbboEvent → List UInt8} {s : NbboReplay layout}
  {early late : List BookEvent}

/-- The last recorded quote of a symbol, or the empty quote. -/
def lastQuote (journal : List NbboEvent) (symbol : UInt64) : Nbbo :=
  ((journal.filter fun row => row.symbolU64 = symbol).getLast?.map NbboEvent.quote).getD {}

theorem Coherent.lastQuote_step (coherent : s.Coherent) (image : NbboEvent → List UInt8)
    (ev : BookEvent) (known : ∀ symbol, lastQuote s.journal symbol = s.nbbo.current symbol)
    (symbol : UInt64) :
    lastQuote (onEvent image s ev).journal symbol = (onEvent image s ev).nbbo.current symbol := by
  obtain ⟨others, journal⟩ := coherent.journal_step image ev
  rw [journal]
  by_cases own : symbol = ev.symbol.asU64
  · subst own
    split
    · simp [lastQuote, recordFor, NbboEvent.quote, toNbboEvent]
    · next same =>
      rw [List.append_nil, known, not_not.mp same]
  · rw [others symbol own, ← known symbol]
    split
    · have foreign : ev.symbol.asU64 ≠ symbol := fun same => own same.symm
      simp [lastQuote, recordFor, toNbboEvent, foreign]
    · rw [List.append_nil]

/-- The journal ends, for each symbol, with the quote that the consolidator has. -/
theorem lastQuote_replay (image : NbboEvent → List UInt8) (layout : ProbeLayout UInt64)
    (events : List BookEvent) (symbol : UInt64) :
    lastQuote (replayToJournal image layout events).journal symbol =
      (replayToJournal image layout events).nbbo.current symbol := by
  have kept : (replayToJournal image layout events).Coherent ∧ ∀ symbol,
      lastQuote (replayToJournal image layout events).journal symbol =
        (replayToJournal image layout events).nbbo.current symbol :=
    Run.invariant (P := fun s : NbboReplay layout => s.Coherent ∧ ∀ symbol,
        lastQuote s.journal symbol = s.nbbo.current symbol)
      (fun s ev both => ⟨both.1.next image ev, both.1.lastQuote_step image ev both.2⟩) events
      ⟨start_coherent, fun _ => rfl⟩
  exact kept.2 symbol

/-- What a record shares with the event it was made for. -/
def stampOf (row : NbboEvent) : UInt64 × UInt64 := (row.symbolU64, row.exchangeTsNs)

/-- The journal grows by records of events in their order. -/
theorem Coherent.journal_growth (coherent : s.Coherent) (image : NbboEvent → List UInt8)
    (events : List BookEvent) :
    ∃ grown, (events.foldl (onEvent image) s).journal = s.journal ++ grown ∧
      (grown.map stampOf).Sublist (events.map fun ev => (ev.symbol.asU64, ev.exchangeTsNs)) := by
  induction events generalizing s with
  | nil => exact ⟨[], (List.append_nil _).symm, List.Sublist.refl _⟩
  | cons ev rest ih =>
    obtain ⟨grown, journal, sub⟩ := ih (coherent.next image ev)
    have first := (coherent.journal_step image ev).2
    rw [List.foldl_cons, journal, first]
    split
    · refine ⟨recordFor (onEvent image s ev).nbbo ev :: grown, by simp, ?_⟩
      rw [List.map_cons, List.map_cons]
      exact sub.cons_cons _
    · refine ⟨grown, by simp, ?_⟩
      rw [List.map_cons]
      exact sub.cons _

end NbboReplay

namespace NbboSnapshot

/-- The answer shows this quote, as of some event, or shows none where there is none. -/
def Shows (answer : NbboSnapshot) (symbol : UInt64) (quote : Nbbo) : Prop :=
  answer = ofRow none ∧ quote = {} ∨
    ∃ exchangeTs ingestTs, answer = ofRow (some (toNbboEvent symbol quote exchangeTs ingestTs))

end NbboSnapshot

theorem nbboEventToProto_inj {a b : NbboEvent} (symbol : a.symbolU64 = b.symbolU64) :
    nbboEventToProto a = nbboEventToProto b ↔ a = b := by
  constructor
  · intro same
    have venues : ∀ x y : UInt8, x.toUInt32 = y.toUInt32 → x = y := by
      intro x y widened
      have value := congrArg UInt32.toNat widened
      rw [UInt8.toNat_toUInt32, UInt8.toNat_toUInt32] at value
      exact UInt8.toNat_inj.mp value
    cases a
    cases b
    simp only [nbboEventToProto, NbboEventMsg.mk.injEq] at same symbol
    simp only [NbboEvent.mk.injEq]
    obtain ⟨-, ts, ingest, hasBid, hasAsk, bid, bidQty, ask, askQty, bidVenue, askVenue, rest⟩ := same
    exact ⟨symbol, ts, ingest, hasBid, hasAsk, bid, bidQty, ask, askQty, venues _ _ bidVenue,
      venues _ _ askVenue, rest⟩
  · rintro rfl
    rfl

namespace QueryNbboRequest

variable {request : QueryNbboRequest} {rows : List NbboEvent} {row : NbboEvent}

theorem matching_sorted (ordered : RecordedInOrder rows) (request : QueryNbboRequest) :
    (request.matching rows).Pairwise fun a b => a.timeKey ≤ b.timeKey := by
  have among : (request.matching rows).Pairwise fun a b =>
      a.symbolU64 = b.symbolU64 → a.exchangeTsNs ≤ b.exchangeTsNs :=
    ordered.sublist List.filter_sublist
  refine among.imp_of_mem fun {a b} left right following => ?_
  have own_left := of_decide_eq_true (List.mem_filter.mp left).2
  have own_right := of_decide_eq_true (List.mem_filter.mp right).2
  exact UInt64.le_iff_toNat_le.mp (following (own_left.1.trans own_right.1.symm))

theorem best_symbol (found : request.best rows = some row) :
    row ∈ request.matching rows ∧ row.symbolU64 = symbolToU64 request.symbol := by
  rw [best_eq_scan] at found
  have member := (FirstBest.scan_isFirstBest found).mem
  exact ⟨member, (of_decide_eq_true (List.mem_filter.mp member).2).1⟩

theorem best_eq_none : request.best rows = none ↔ request.matching rows = [] := by
  rw [best_eq_scan, FirstBest.scan_eq_none]

theorem exists_last {row : NbboEvent} (found : request.best rows = some row) :
    ∃ final, (request.matching rows).getLast? = some final := by
  have held := (best_symbol found).1
  exact Option.isSome_iff_exists.mp (List.getLast?_isSome.mpr (List.ne_nil_of_mem held))

/-- The answer is the last record exactly if the first of the records with its time is that
record as well. -/
theorem answers_last_iff (request : QueryNbboRequest) (ordered : RecordedInOrder rows) :
    (request.queryNbbo rows {}).2 = .ofRow (request.matching rows).getLast? ↔
      FirstBest.TiesAgree NbboEvent.timeKey id (request.matching rows) := by
  have scanned := FirstBest.scan_eq_getLast?_iff id (matching_sorted ordered request)
  rw [Option.map_id, id_eq, id_eq, ← best_eq_scan] at scanned
  rw [queryNbbo_response, ← scanned]
  refine ⟨fun same => ?_, congrArg NbboSnapshot.ofRow⟩
  cases found : request.best rows with
  | none => rw [best_eq_none.mp found, List.getLast?_nil]
  | some row =>
    obtain ⟨final, last⟩ := exists_last found
    have own := of_decide_eq_true (List.mem_filter.mp (List.mem_of_getLast? last)).2
    rw [found, last] at same
    have messages := congrArg NbboSnapshot.nbbo same
    rw [(nbboEventToProto_inj ((best_symbol found).2.trans own.1.symm)).mp messages, last]

/-- The answer shows the last recorded quote exactly if the first of the records with its time
holds that quote as well. -/
theorem shows_last_iff (request : QueryNbboRequest)
    (sorted : (request.matching rows).Pairwise fun a b => a.timeKey ≤ b.timeKey) :
    (request.queryNbbo rows {}).2.Shows (symbolToU64 request.symbol)
        (((request.matching rows).getLast?.map NbboEvent.quote).getD {}) ↔
      FirstBest.TiesAgree NbboEvent.timeKey NbboEvent.quote (request.matching rows) := by
  rw [← FirstBest.scan_eq_getLast?_iff _ sorted, ← best_eq_scan,
    queryNbbo_response]
  cases found : request.best rows with
  | none =>
    rw [best_eq_none.mp found]
    simp [NbboSnapshot.Shows]
  | some row =>
    obtain ⟨held, own⟩ := best_symbol found
    obtain ⟨final, last⟩ := exists_last found
    simp only [last, Option.map_some, Option.getD_some, Option.some.injEq]
    constructor
    · rintro (⟨missing, -⟩ | ⟨exchangeTs, ingestTs, shown⟩)
      · cases missing
      · have messages := congrArg NbboSnapshot.nbbo shown
        rw [(nbboEventToProto_inj (b := toNbboEvent _ _ _ _) own).mp messages]
        rfl
    · intro same
      refine .inr ⟨row.exchangeTsNs, row.ingestTsNs, ?_⟩
      rw [← same, ← own]
      rfl

section Replayed

variable {layout : ProbeLayout UInt64} {early late : List BookEvent}

/-- The replay of `late` begins after the time of the query, and that of `early` ends by it,
as far as the symbol of the query is concerned. -/
structure Divides (request : QueryNbboRequest) (early late : List BookEvent) : Prop where
  ordered : early.Pairwise fun a b =>
    a.symbol.asU64 = b.symbol.asU64 → a.exchangeTsNs ≤ b.exchangeTsNs
  past : ∀ ev ∈ early, ev.symbol.asU64 = symbolToU64 request.symbol →
    ev.exchangeTsNs ≤ request.timestampNs
  future : ∀ ev ∈ late, ev.symbol.asU64 = symbolToU64 request.symbol →
    request.timestampNs < ev.exchangeTsNs

open NbboReplay in
theorem Divides.matching_replay (divides : request.Divides early late)
    (image : NbboEvent → List UInt8) (layout : ProbeLayout UInt64) :
    RecordedInOrder (replayToJournal image layout early).journal ∧
      request.matching (replayToJournal image layout (early ++ late)).journal =
        (replayToJournal image layout early).journal.filter fun row =>
          row.symbolU64 = symbolToU64 request.symbol := by
  obtain ⟨grown, journal, among⟩ :=
    (run_coherent image layout early).journal_growth image late
  have started : (start layout).Coherent := start_coherent
  obtain ⟨recorded, whole, from_early⟩ := started.journal_growth image early
  have all : (replayToJournal image layout early).journal = recorded := whole
  rw [show replayToJournal image layout (early ++ late) = late.foldl (onEvent image)
    (replayToJournal image layout early) from List.foldl_append, journal, all]
  have stamps : ∀ {rows : List NbboEvent} {events : List BookEvent},
      (rows.map stampOf).Sublist (events.map fun ev => (ev.symbol.asU64, ev.exchangeTsNs)) →
      ∀ row ∈ rows, ∃ ev ∈ events, ev.symbol.asU64 = row.symbolU64 ∧
        ev.exchangeTsNs = row.exchangeTsNs := by
    intro rows events sub row member
    obtain ⟨ev, held, stamp⟩ := List.mem_map.mp (sub.subset (List.mem_map_of_mem member))
    exact ⟨ev, held, congrArg Prod.fst stamp, congrArg Prod.snd stamp⟩
  constructor
  · have pairs : (early.map fun ev => (ev.symbol.asU64, ev.exchangeTsNs)).Pairwise
        fun a b => a.1 = b.1 → a.2 ≤ b.2 := List.pairwise_map.mpr divides.ordered
    exact List.pairwise_map.mp (pairs.sublist from_early)
  · have none_late : grown.filter request.admits = [] := by
      rw [List.filter_eq_nil_iff]
      intro row member admitted
      obtain ⟨ev, held, symbol, ts⟩ := stamps among row member
      have inside := of_decide_eq_true admitted
      have after := divides.future ev held (symbol.trans inside.1)
      rw [ts] at after
      exact absurd inside.2 (UInt64.not_le.mpr after)
    rw [matching, List.filter_append, none_late, List.append_nil]
    apply List.filter_congr
    intro row member
    obtain ⟨ev, held, symbol, ts⟩ := stamps from_early row member
    simp only [admits, decide_eq_decide, and_iff_left_iff_imp]
    intro own
    rw [← ts]
    exact divides.past ev held (symbol.trans own)

end Replayed

end QueryNbboRequest

open QueryNbboRequest in
/-- For every journal a query answers the last record up to its time, and for every replay it
shows the quote that the consolidator had at that time, exactly if anything was recorded and the
first of the records with the latest time up to there does not differ from the last of them. -/
theorem queryNbbo_latest_iff (request : QueryNbboRequest) :
    (∀ rows, RecordedInOrder rows →
      (request.queryNbbo rows {} = (.ok, .ofRow (request.matching rows).getLast?) ↔
        rows ≠ [] ∧ FirstBest.TiesAgree NbboEvent.timeKey id (request.matching rows))) ∧
    ∀ (image : NbboEvent → List UInt8) (layout : ProbeLayout UInt64) (early late : List BookEvent),
      request.Divides early late →
      let journal := (NbboReplay.replayToJournal image layout (early ++ late)).journal
      let answer := request.queryNbbo journal {}
      (answer.1 = .ok ∧ answer.2.Shows (symbolToU64 request.symbol)
          ((NbboReplay.replayToJournal image layout early).nbbo.current
            (symbolToU64 request.symbol)) ↔
        journal ≠ [] ∧
          FirstBest.TiesAgree NbboEvent.timeKey NbboEvent.quote (request.matching journal)) := by
  refine ⟨fun rows ordered => ?_, fun image layout early late divides => ?_⟩
  · rw [Prod.ext_iff, queryNbbo_status, request.answers_last_iff ordered]
  obtain ⟨ordered, matched⟩ := divides.matching_replay image layout
  have sorted := matching_sorted ordered request
  have early_only : request.matching (NbboReplay.replayToJournal image layout early).journal =
      (NbboReplay.replayToJournal image layout early).journal.filter fun row =>
        row.symbolU64 = symbolToU64 request.symbol := by
    have alone : request.Divides early [] := ⟨divides.ordered, divides.past, by simp⟩
    simpa only [List.append_nil] using (alone.matching_replay image layout).2
  rw [early_only, ← matched] at sorted
  intro journal answer
  rw [← NbboReplay.lastQuote_replay, NbboReplay.lastQuote, ← matched]
  exact and_congr (request.queryNbbo_status journal) (request.shows_last_iff sorted)

/-- A query for AAPL at time 5. -/
def aaplAt : QueryNbboRequest where
  symbol := ['A'.toUInt8, 'A'.toUInt8, 'P'.toUInt8, 'L'.toUInt8]
  timestampNs := 5

def aaplRow (bidPrice : UInt32) : NbboEvent :=
  { symbolU64 := symbolToU64 aaplAt.symbol, exchangeTsNs := 5, hasBid := true, bidPrice := bidPrice }

/-- Of two records at one time the query answers the first. -/
theorem query_answers_first_of_ties :
    RecordedInOrder [aaplRow 100, aaplRow 101] ∧
      aaplAt.queryNbbo [aaplRow 100, aaplRow 101] {} = (.ok, .ofRow (some (aaplRow 100))) ∧
      aaplAt.queryNbbo [aaplRow 100, aaplRow 101] {} ≠
        (.ok, .ofRow (aaplAt.matching [aaplRow 100, aaplRow 101]).getLast?) := by
  refine ⟨?_, by decide +kernel, by decide +kernel⟩
  simp [RecordedInOrder, aaplRow]

/-- A time with one record is answered with it. -/
theorem queryNbbo_latest_single :
    aaplAt.queryNbbo [aaplRow 100] {} =
      (.ok, .ofRow (aaplAt.matching [aaplRow 100]).getLast?) := by
  have alone : aaplAt.matching [aaplRow 100] = [aaplRow 100] := by decide +kernel
  refine ((queryNbbo_latest_iff aaplAt).1 [aaplRow 100] (List.pairwise_singleton _ _)).mpr
    ⟨List.cons_ne_nil _ _, ?_⟩
  rw [alone]
  intro before first between last whole
  have size := congrArg List.length whole
  simp at size
  omega

end FeedHandler
