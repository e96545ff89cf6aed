import FeedHandler.Lib.FirstBest
import FeedHandler.Phase3.OrderBookEngine

/-! The consolidated best bid and offer: for each symbol the last top of book of every
venue, and the best quote of each side computed from them. The entry of the last symbol
is cached in front of the map of all symbols. -/
namespace FeedHandler

structure Nbbo where
  hasBid : Bool := false
  hasAsk : Bool := false
  bidPrice : UInt32 := 0
  bidQty : UInt32 := 0
  askPrice : UInt32 := 0
  askQty : UInt32 := 0
  bidVenue : UInt8 := 0
  askVenue : UInt8 := 0
  bidVenueSequence : UInt64 := 0
  askVenueSequence : UInt64 := 0
  deriving DecidableEq, Repr

structure VenueTop where
  hasBid : Bool := false
  hasAsk : Bool := false
  bidPrice : UInt32 := 0
  bidQty : UInt32 := 0
  askPrice : UInt32 := 0
  askQty : UInt32 := 0
  bidSequence : UInt64 := 0
  askSequence : UInt64 := 0
  deriving DecidableEq, Repr

structure SymbolState where
  venues : Venue → VenueTop := fun _ => {}
  nbbo : Nbbo := {}

/-- The pointer to the cached entry is the key of that entry in the map: entries of the
map are never moved or removed. -/
structure NbboConsolidator where
  bySymbol : UInt64 → Option SymbolState := fun _ => none
  cachedSymbol : UInt64 := 0
  cachedState : Option UInt64 := none
  cachedValid : Bool := false

namespace NbboConsolidator

def offerBid (out : Nbbo) (venue : Venue) (v : VenueTop) : Nbbo :=
  if v.hasBid then
    if !out.hasBid || v.bidPrice > out.bidPrice then
      { out with
        hasBid := true
        bidPrice := v.bidPrice
        bidQty := v.bidQty
        bidVenue := venue.code
        bidVenueSequence := v.bidSequence }
    else out
  else out

def offerAsk (out : Nbbo) (venue : Venue) (v : VenueTop) : Nbbo :=
  if v.hasAsk then
    if !out.hasAsk || v.askPrice < out.askPrice then
      { out with
        hasAsk := true
        askPrice := v.askPrice
        askQty := v.askQty
        askVenue := venue.code
        askVenueSequence := v.askSequence }
    else out
  else out

def compute (state : SymbolState) : Nbbo :=
  Venue.all.foldl
    (fun out venue => offerAsk (offerBid out venue (state.venues venue)) venue
      (state.venues venue))
    {}

/-- The comparison of all ten fields. -/
def nbboChanged (before after : Nbbo) : Bool := before != after

def current (c : NbboConsolidator) (symbol : UInt64) : Nbbo :=
  match c.bySymbol symbol with
  | none => {}
  | some state => state.nbbo

/-- Look the symbol up, enter it if it is new, and cache its entry. -/
def fetch (c : NbboConsolidator) (symbol : UInt64) : NbboConsolidator :=
  { bySymbol := match c.bySymbol symbol with
      | none => Function.update c.bySymbol symbol (some {})
      | some _ => c.bySymbol
    cachedSymbol := symbol
    cachedState := some symbol
    cachedValid := true }

/-- The consolidator and the key of the entry to update. -/
def entryFor (c : NbboConsolidator) (symbol : UInt64) : NbboConsolidator × UInt64 :=
  match c.cachedState with
  | some entry =>
    if c.cachedValid = true ∧ c.cachedSymbol = symbol then (c, entry) else (c.fetch symbol, symbol)
  | none => (c.fetch symbol, symbol)

/-- The top of one venue after an update. A side that is absent keeps its sequence. -/
def stampTop (v : VenueTop) (top : TopOfBook) (venueSequence : UInt64) : VenueTop where
  hasBid := top.hasBid
  hasAsk := top.hasAsk
  bidPrice := top.bidPrice
  bidQty := top.bidQty
  askPrice := top.askPrice
  askQty := top.askQty
  bidSequence := if top.hasBid then venueSequence else v.bidSequence
  askSequence := if top.hasAsk then venueSequence else v.askSequence

def updateState (state : SymbolState) (venue : Venue) (top : TopOfBook) (venueSequence : UInt64) :
    SymbolState :=
  let venues := Function.update state.venues venue
    (stampTop (state.venues venue) top venueSequence)
  { venues := venues, nbbo := compute { state with venues := venues } }

def updateAndCurrent (c : NbboConsolidator) (symbol : UInt64) (venue : Venue) (top : TopOfBook)
    (venueSequence : UInt64) : NbboConsolidator × Nbbo :=
  let located := c.entryFor symbol
  let state := updateState ((located.1.bySymbol located.2).getD {}) venue top venueSequence
  ({ located.1 with bySymbol := Function.update located.1.bySymbol located.2 (some state) },
    state.nbbo)

def update (c : NbboConsolidator) (symbol : UInt64) (venue : Venue) (top : TopOfBook)
    (venueSequence : UInt64) : NbboConsolidator × Bool :=
  let updated := c.updateAndCurrent symbol venue top venueSequence
  (updated.1, nbboChanged (c.current symbol) updated.2)

variable {c : NbboConsolidator}

/-- What the consolidator knows of a symbol; a symbol never seen has no quotes. -/
def stateOf (c : NbboConsolidator) (symbol : UInt64) : SymbolState := (c.bySymbol symbol).getD {}

theorem current_eq (c : NbboConsolidator) (symbol : UInt64) :
    c.current symbol = (c.stateOf symbol).nbbo := by
  simp only [current, stateOf]
  cases c.bySymbol symbol <;> rfl

/-- A valid cache points to the entry of its symbol. -/
def CacheSound (c : NbboConsolidator) : Prop :=
  c.cachedValid = true → ∀ entry ∈ c.cachedState,
    entry = c.cachedSymbol ∧ (c.bySymbol entry).isSome = true

theorem initial_cacheSound : ({} : NbboConsolidator).CacheSound :=
  fun valid => absurd valid Bool.false_ne_true

theorem fetch_stateOf (c : NbboConsolidator) (symbol other : UInt64) :
    (c.fetch symbol).stateOf other = c.stateOf other := by
  simp only [fetch, stateOf]
  cases known : c.bySymbol symbol with
  | some state => rfl
  | none =>
    by_cases same : other = symbol
    · subst same
      simp [known]
    · simp [same]

theorem fetch_known (c : NbboConsolidator) (symbol : UInt64) :
    ((c.fetch symbol).bySymbol symbol).isSome = true := by
  simp only [fetch]
  cases known : c.bySymbol symbol with
  | some state => simp [known]
  | none => simp

/-- Through the cache or past it, an update reaches the entry of its symbol. -/
theorem CacheSound.entryFor_spec (sound : c.CacheSound) (symbol : UInt64) :
    (c.entryFor symbol).2 = symbol ∧ (c.entryFor symbol).1.CacheSound ∧
      ((c.entryFor symbol).1.bySymbol symbol).isSome = true ∧
      ∀ other, (c.entryFor symbol).1.stateOf other = c.stateOf other := by
  have fetched : (c.fetch symbol).CacheSound := by
    rintro _ entry ⟨⟩
    exact ⟨rfl, fetch_known c symbol⟩
  have missed := And.intro fetched (And.intro (fetch_known c symbol) (fetch_stateOf c symbol))
  simp only [entryFor]
  cases pointer : c.cachedState with
  | none => exact ⟨rfl, missed⟩
  | some entry =>
    simp only
    split
    · next hit =>
      obtain ⟨here, known⟩ := sound hit.1 entry pointer
      rw [hit.2] at here
      subst here
      exact ⟨rfl, sound, known, fun _ => rfl⟩
    · exact ⟨rfl, missed⟩

/-- An update replaces the state of its symbol and answers that state's quote. -/
theorem CacheSound.updateAndCurrent_spec (sound : c.CacheSound) (symbol : UInt64) (venue : Venue)
    (top : TopOfBook) (venueSequence : UInt64) :
    (c.updateAndCurrent symbol venue top venueSequence).1.CacheSound ∧
      (∀ other, (c.updateAndCurrent symbol venue top venueSequence).1.stateOf other =
        if other = symbol then updateState (c.stateOf symbol) venue top venueSequence
        else c.stateOf other) ∧
      (c.updateAndCurrent symbol venue top venueSequence).2 =
        (updateState (c.stateOf symbol) venue top venueSequence).nbbo := by
  obtain ⟨key, kept, known, states⟩ := sound.entryFor_spec symbol
  have own : ((c.entryFor symbol).1.bySymbol symbol).getD {} = c.stateOf symbol := states symbol
  simp only [updateAndCurrent, key, own]
  refine ⟨?_, ?_, trivial⟩
  · intro valid entry pointer
    obtain ⟨here, present⟩ := kept valid entry pointer
    refine ⟨here, ?_⟩
    by_cases same : entry = symbol
    · subst same
      simp
    · simpa [same] using present
  · intro other
    by_cases same : other = symbol
    · subst same
      simp [stateOf]
    · rw [if_neg same, ← states other]
      simp [stateOf, same]

/-- An update reports a change exactly when the quote of its symbol changed. -/
theorem CacheSound.update_spec (sound : c.CacheSound) (symbol : UInt64) (venue : Venue)
    (top : TopOfBook) (venueSequence : UInt64) :
    (c.update symbol venue top venueSequence).1.CacheSound ∧
      (∀ other, (c.update symbol venue top venueSequence).1.stateOf other =
        if other = symbol then updateState (c.stateOf symbol) venue top venueSequence
        else c.stateOf other) ∧
      ((c.update symbol venue top venueSequence).2 = true ↔
        (c.update symbol venue top venueSequence).1.current symbol ≠ c.current symbol) := by
  obtain ⟨kept, states, answer⟩ := sound.updateAndCurrent_spec symbol venue top venueSequence
  refine ⟨kept, states, ?_⟩
  simp only [update, nbboChanged, answer, bne_iff_ne, current_eq, states symbol, if_true]
  exact ne_comm

end NbboConsolidator
end FeedHandler
