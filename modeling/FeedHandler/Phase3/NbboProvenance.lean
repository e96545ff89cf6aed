import FeedHandler.Phase3.NbboReplay

/-! Where the quotes of the consolidated book come from. Each side is to carry the
sequence of the venue's last event that changed that side; but one update stamps both
sides of a venue that has both, so an event on one side also claims the other. -/
namespace FeedHandler

/-- One side of a venue's top of book. -/
structure TopSide where
  present : Bool
  price : UInt32
  qty : UInt32
  deriving DecidableEq, Repr

def TopOfBook.side (top : TopOfBook) : QuoteSide → TopSide
  | .bid => ⟨top.hasBid, top.bidPrice, top.bidQty⟩
  | .ask => ⟨top.hasAsk, top.askPrice, top.askQty⟩

/-- For each side, venue and symbol the sequence of the last event that changed that side
of the venue's top. -/
abbrev SideHistory := QuoteSide → Venue → UInt64 → Option UInt64

namespace NbboReplay
open NbboConsolidator

variable {layout : ProbeLayout UInt64} {image : NbboEvent → List UInt8}

/-- The event's own top before and after it. -/
def topBefore (s : NbboReplay layout) (ev : BookEvent) : TopOfBook :=
  s.books.topOfBook ev.venue ev.symbol.asU64

def topAfter (s : NbboReplay layout) (ev : BookEvent) : TopOfBook :=
  (s.books.step ev).topOfBook ev.venue ev.symbol.asU64

/-- The event changes a side of its venue's top: its presence, price or quantity. -/
def ChangesSide (s : NbboReplay layout) (ev : BookEvent) (side : QuoteSide) : Prop :=
  (s.topBefore ev).side side ≠ (s.topAfter ev).side side

instance (s : NbboReplay layout) (ev : BookEvent) (side : QuoteSide) :
    Decidable (s.ChangesSide ev side) :=
  inferInstanceAs (Decidable (_ ≠ _))

/-- The history of the sides after one more event. -/
def recordSides (s : NbboReplay layout) (history : SideHistory) (ev : BookEvent) : SideHistory :=
  fun side venue symbol =>
    if venue = ev.venue ∧ symbol = ev.symbol.asU64 ∧ s.ChangesSide ev side then some ev.sequence
    else history side venue symbol

/-- A replay together with the history of its sides. -/
def track (image : NbboEvent → List UInt8) (tracked : NbboReplay layout × SideHistory)
    (ev : BookEvent) : NbboReplay layout × SideHistory :=
  (onEvent image tracked.1 ev, tracked.1.recordSides tracked.2 ev)

def replayTracked (image : NbboEvent → List UInt8) (layout : ProbeLayout UInt64)
    (events : List BookEvent) : NbboReplay layout × SideHistory :=
  events.foldl (track image) (start layout, fun _ _ _ => none)

/-- Each side of every consolidated quote names the event that last changed that side of
its venue's top. -/
def Provenance (s : NbboReplay layout) (history : SideHistory) : Prop :=
  ∀ symbol side, ((s.nbbo.current symbol).side side).present = true →
    ∃ v, ((s.nbbo.current symbol).side side).venue = v.code ∧
      history side v symbol = some ((s.nbbo.current symbol).side side).sequence

def ProvenanceAfter (image : NbboEvent → List UInt8) (layout : ProbeLayout UInt64)
    (events : List BookEvent) : Prop :=
  (replayTracked image layout events).1.Provenance (replayTracked image layout events).2

/-- An event that changes its venue's top changes each side that has a quote afterwards. -/
def NoSideKept (s : NbboReplay layout) (ev : BookEvent) : Prop :=
  s.topBefore ev ≠ s.topAfter ev →
    ∀ side, ((s.topAfter ev).side side).present = true → s.ChangesSide ev side

instance (s : NbboReplay layout) (ev : BookEvent) : Decidable (s.NoSideKept ev) :=
  have _sides : Decidable (∀ side, ((s.topAfter ev).side side).present = true →
      s.ChangesSide ev side) :=
    decidable_of_iff _ QuoteSide.forall_iff.symm
  inferInstanceAs (Decidable (_ → _))

/-- An event changes the top of the venue of a best quote, and leaves that quote's side as
it is. -/
def ClaimsOtherSide (s : NbboReplay layout) (ev : BookEvent) : Prop :=
  s.topBefore ev ≠ s.topAfter ev ∧
    ∃ side, ((s.topAfter ev).side side).present = true ∧ ¬ s.ChangesSide ev side ∧
      ((s.nbbo.current ev.symbol.asU64).side side).venue = ev.venue.code

variable {s : NbboReplay layout} {history : SideHistory} {ev : BookEvent} {past : List BookEvent}
  {side : QuoteSide}

/-- The consolidator's stamp of a side is the history of that side. -/
def Stamped (s : NbboReplay layout) (history : SideHistory) : Prop :=
  ∀ symbol v side, ((((s.nbbo.stateOf symbol).venues v).side v side).present = true →
    history side v symbol = some (((s.nbbo.stateOf symbol).venues v).side v side).sequence)

/-- The history of a side names events of the past of that venue. -/
def FromPast (history : SideHistory) (past : List BookEvent) : Prop :=
  ∀ side v symbol sequence, history side v symbol = some sequence →
    (v, sequence) ∈ past.map fun ev => (ev.venue, ev.sequence)

theorem FromPast.next (known : FromPast history past) (s : NbboReplay layout) (ev : BookEvent) :
    FromPast (s.recordSides history ev) (past ++ [ev]) := by
  intro side v symbol sequence recorded
  rw [List.map_append, List.mem_append]
  simp only [recordSides] at recorded
  split at recorded
  · next own =>
    cases recorded
    exact Or.inr (by simp [own.1])
  · exact Or.inl (known side v symbol sequence recorded)

/-- The sides of a venue's top after an update. A side that is present is stamped. -/
theorem stampTop_side (v : VenueTop) (venue : Venue) (top : TopOfBook) (venueSequence : UInt64)
    (side : QuoteSide) :
    ((stampTop v top venueSequence).side venue side).present = (top.side side).present ∧
      ((top.side side).present = true →
        ((stampTop v top venueSequence).side venue side).sequence = venueSequence) := by
  cases side
  · exact ⟨rfl, fun present => if_pos present⟩
  · exact ⟨rfl, fun present => if_pos present⟩

/-- What the consolidator holds of a venue and symbol after an event: stamped if the event
changed that top, and as before otherwise. -/
theorem Coherent.venues_next (coherent : s.Coherent) (image : NbboEvent → List UInt8)
    (ev : BookEvent) (symbol : UInt64) (v : Venue) :
    ((onEvent image s ev).nbbo.stateOf symbol).venues v =
      if v = ev.venue ∧ symbol = ev.symbol.asU64 ∧ s.topBefore ev ≠ s.topAfter ev then
        stampTop ((s.nbbo.stateOf symbol).venues v) (s.topAfter ev) ev.sequence
      else (s.nbbo.stateOf symbol).venues v := by
  obtain ⟨after, changed⟩ := s.books.onEvent_top ev
  cases heard : (s.books.onEvent ev).2.changedTop with
  | false =>
    have same : ¬ s.topBefore ev ≠ s.topAfter ev := fun differ =>
      absurd (changed.mpr differ) (by simp [heard])
    rw [(onEvent_quiet image heard).1, if_neg fun own => same own.2.2]
  | true =>
    obtain ⟨_, states, _⟩ := coherent.heard_spec ev
    have differ : s.topBefore ev ≠ s.topAfter ev := changed.mp heard
    rw [(onEvent_loud image heard).1, states]
    by_cases here : symbol = ev.symbol.asU64
    · subst here
      by_cases own : v = ev.venue
      · subst own
        rw [if_pos rfl, if_pos ⟨rfl, rfl, differ⟩]
        simp only [updateState, Function.update_self, after]
        rfl
      · rw [if_pos rfl, if_neg fun both => own both.1]
        simp only [updateState, Function.update_of_ne own]
    · rw [if_neg here, if_neg fun both => here both.2.1]

/-- Step lemma: an event that keeps no side of the top it changes keeps every stamp right. -/
theorem Stamped.next (stamped : s.Stamped history) (coherent : s.Coherent)
    (image : NbboEvent → List UInt8) (kept : s.NoSideKept ev) :
    (onEvent image s ev).Stamped (s.recordSides history ev) := by
  intro symbol v side
  simp only [coherent.venues_next image ev symbol v, recordSides]
  by_cases own : v = ev.venue ∧ symbol = ev.symbol.asU64
  · by_cases differ : s.topBefore ev ≠ s.topAfter ev
    · obtain ⟨shown, stamp⟩ := stampTop_side ((s.nbbo.stateOf symbol).venues v) v (s.topAfter ev)
        ev.sequence side
      rw [if_pos ⟨own.1, own.2, differ⟩, shown]
      intro present
      rw [if_pos ⟨own.1, own.2, kept differ side present⟩, stamp present]
    · have same := not_not.mp differ
      rw [if_neg fun both => differ both.2.2, if_neg fun both => both.2.2 (by rw [same])]
      exact stamped symbol v side
  · rw [if_neg fun both => own ⟨both.1, both.2.1⟩, if_neg fun both => own ⟨both.1, both.2.1⟩]
    exact stamped symbol v side

theorem Stamped.provenance (stamped : s.Stamped history) (coherent : s.Coherent) :
    s.Provenance history := by
  intro symbol side shown
  obtain ⟨v, same, _⟩ := (coherent.best symbol side).best shown
  have present := (congrArg Quote.present same).symm.trans shown
  refine ⟨v, (congrArg Quote.venue same).trans (VenueTop.side_venue _ _ _), ?_⟩
  rw [stamped symbol v side present]
  exact congrArg some (congrArg Quote.sequence same).symm

/-- The tops of an event's symbol before and after, on a side that the event kept. -/
theorem topOfBook_kept (kept : ¬ s.ChangesSide ev side) (v : Venue) :
    (s.books.topOfBook v ev.symbol.asU64).side side =
      ((s.books.step ev).topOfBook v ev.symbol.asU64).side side := by
  by_cases own : v = ev.venue
  · subst own
    exact not_not.mp kept
  · rw [OrderBookEngine.step_topOfBook_other fun both => own both.1]

theorem VenueTop.top_side (v : VenueTop) (venue : Venue) (side : QuoteSide) :
    (v.top.side side).present = (v.side venue side).present ∧
      (v.top.side side).price = (v.side venue side).price := by
  cases side <;> exact ⟨rfl, rfl⟩

/-- A kept side: the best quote stays at its venue, which is stamped with the event. -/
theorem Coherent.side_claimed (coherent : s.Coherent) (image : NbboEvent → List UInt8)
    (differ : s.topBefore ev ≠ s.topAfter ev)
    (shown : ((s.topAfter ev).side side).present = true) (kept : ¬ s.ChangesSide ev side)
    (venue : ((s.nbbo.current ev.symbol.asU64).side side).venue = ev.venue.code) :
    let quote := ((onEvent image s ev).nbbo.current ev.symbol.asU64).side side
    quote.present = true ∧ quote.venue = ev.venue.code ∧ quote.sequence = ev.sequence := by
  have next := coherent.next image ev
  have before := coherent.best ev.symbol.asU64 side
  have after := next.best ev.symbol.asU64 side
  have tops : ∀ v, ((s.nbbo.stateOf ev.symbol.asU64).venues v).top.side side =
      (((onEvent image s ev).nbbo.stateOf ev.symbol.asU64).venues v).top.side side := by
    intro v
    rw [coherent.tops, next.tops, onEvent_books]
    exact topOfBook_kept kept v
  have quotes : ∀ v, (((s.nbbo.stateOf ev.symbol.asU64).venues v).side v side).present =
        ((((onEvent image s ev).nbbo.stateOf ev.symbol.asU64).venues v).side v side).present ∧
      (((s.nbbo.stateOf ev.symbol.asU64).venues v).side v side).price =
        ((((onEvent image s ev).nbbo.stateOf ev.symbol.asU64).venues v).side v side).price := by
    intro v
    rw [← (VenueTop.top_side _ v side).1, ← (VenueTop.top_side _ v side).1,
      ← (VenueTop.top_side _ v side).2, ← (VenueTop.top_side _ v side).2, tops v]
    exact ⟨rfl, rfl⟩
  have present : ((((onEvent image s ev).nbbo.stateOf ev.symbol.asU64).venues ev.venue).side
      ev.venue side).present = true := by
    rw [← (VenueTop.top_side _ ev.venue side).1, next.tops, onEvent_books]
    exact shown
  have same := before.venue_eq after
    (fun v => ⟨VenueTop.side_venue _ _ _, VenueTop.side_venue _ _ _⟩) quotes
    (before.present.mpr ⟨ev.venue, (quotes ev.venue).1.trans present⟩)
  have still := after.present.mpr ⟨ev.venue, present⟩
  obtain ⟨w, best, _⟩ := after.best still
  have coded : (((onEvent image s ev).nbbo.current ev.symbol.asU64).side side).venue = w.code :=
    (congrArg Quote.venue best).trans (VenueTop.side_venue _ _ _)
  have here : w = ev.venue := Venue.code_inj (coded.symm.trans (same.symm.trans venue))
  subst here
  refine ⟨still, coded, (congrArg Quote.sequence best).trans ?_⟩
  rw [coherent.venues_next, if_pos ⟨rfl, rfl, differ⟩]
  exact (stampTop_side _ _ _ _ _).2 shown

/-- An event with a sequence of its own that claims a kept side leaves a wrong stamp. -/
theorem Coherent.claimed_not_provenance (coherent : s.Coherent) (image : NbboEvent → List UInt8)
    (known : FromPast history past)
    (fresh : (ev.venue, ev.sequence) ∉ past.map fun ev => (ev.venue, ev.sequence))
    (claims : s.ClaimsOtherSide ev) :
    ¬ (onEvent image s ev).Provenance (s.recordSides history ev) := by
  obtain ⟨differ, side, shown, kept, venue⟩ := claims
  obtain ⟨present, still, stamp⟩ := coherent.side_claimed image differ shown kept venue
  intro right
  obtain ⟨v, here, recorded⟩ := right ev.symbol.asU64 side present
  have own : v = ev.venue := Venue.code_inj (here.symm.trans still)
  subst own
  rw [recordSides, if_neg fun both => kept both.2.2, stamp] at recorded
  exact fresh (known side ev.venue ev.symbol.asU64 ev.sequence recorded)

section Runs

variable {layout : ProbeLayout UInt64} (image : NbboEvent → List UInt8) {events : List BookEvent}

theorem replayTracked_append (events : List BookEvent) (ev : BookEvent) :
    replayTracked image layout (events ++ [ev]) =
      track image (replayTracked image layout events) ev := by
  simp only [replayTracked, List.foldl_append, List.foldl_cons, List.foldl_nil]

theorem replayTracked_fst (events : List BookEvent) :
    (replayTracked image layout events).1 = replayToJournal image layout events := by
  induction events using List.reverseRecOn with
  | nil => rfl
  | append_singleton events ev ih =>
    rw [replayTracked_append, track, ih]
    simp only [replayToJournal, List.foldl_append, List.foldl_cons, List.foldl_nil]

theorem replayTracked_fromPast (events : List BookEvent) :
    FromPast (replayTracked image layout events).2 events := by
  induction events using List.reverseRecOn with
  | nil =>
    intro side v symbol sequence recorded
    cases recorded
  | append_singleton events ev ih =>
    rw [replayTracked_append]
    exact ih.next _ ev

/-- Run lemma: events that keep no side of the tops they change keep every stamp right. -/
theorem replayTracked_stamped (along : Run.Along (onEvent image) NoSideKept (start layout) events) :
    (replayTracked image layout events).1.Stamped (replayTracked image layout events).2 := by
  induction events using List.reverseRecOn with
  | nil =>
    intro symbol v side present
    cases side <;> exact absurd present Bool.false_ne_true
  | append_singleton events ev ih =>
    obtain ⟨front, last⟩ := (Run.along_append _ _ _).mp along
    have coherent := run_coherent image layout events
    have kept : (replayTracked image layout events).1.NoSideKept ev := by
      rw [replayTracked_fst]
      exact last.1
    rw [← replayTracked_fst] at coherent
    rw [replayTracked_append]
    exact (ih front).next coherent image kept

end Runs

/-- In a run whose events keep no side of the tops they change, each side of every quote
names the event that last changed it, after every event. And an event that changes the top
of a best quote's venue but not that quote's side leaves a wrong name at once. -/
theorem sides_attributed (image : NbboEvent → List UInt8) (layout : ProbeLayout UInt64)
    (events : List BookEvent) (distinct : (events.map fun ev => (ev.venue, ev.sequence)).Nodup) :
    (Run.Along (onEvent image) NoSideKept (start layout) events →
      ∀ before, before <+: events → ProvenanceAfter image layout before) ∧
    ∀ before ev, before ++ [ev] <+: events →
      (replayToJournal image layout before).ClaimsOtherSide ev →
        ¬ ProvenanceAfter image layout (before ++ [ev]) := by
  constructor
  · rintro along before ⟨after, rfl⟩
    have coherent := run_coherent image layout before
    rw [← replayTracked_fst] at coherent
    exact (replayTracked_stamped image ((Run.along_append _ _ _).mp along).1).provenance coherent
  · rintro before ev ⟨after, rfl⟩ claims
    have coherent := run_coherent image layout before
    have fresh : (ev.venue, ev.sequence) ∉ before.map fun ev => (ev.venue, ev.sequence) := by
      simp only [List.map_append, List.nodup_append] at distinct
      intro earlier
      exact distinct.1.2.2 _ earlier (ev.venue, ev.sequence) (by simp) rfl
    rw [ProvenanceAfter, replayTracked_append, track, replayTracked_fst]
    exact coherent.claimed_not_provenance image (replayTracked_fromPast image before) fresh claims

/-- A bid, and then an ask of the same venue. -/
def bidThenAsk : List BookEvent :=
  [{ type := .add, sequence := 1, orderId := 1, qty := 10, price := 100, side := .buy },
    { type := .add, sequence := 2, orderId := 2, qty := 10, price := 101, side := .sell }]

theorem sides_attributed_bidThenAsk :
    ProvenanceAfter (fun _ => []) OrderBookEngine.orderLayout (bidThenAsk.take 1) ∧
      ¬ ProvenanceAfter (fun _ => []) OrderBookEngine.orderLayout bidThenAsk := by
  have bidOnly := (sides_attributed (fun _ => []) OrderBookEngine.orderLayout (bidThenAsk.take 1)
    (by decide)).1
  have both := (sides_attributed (fun _ => []) OrderBookEngine.orderLayout bidThenAsk
    (by decide)).2
  refine ⟨bidOnly (by decide +kernel) _ List.prefix_rfl, ?_⟩
  exact both (bidThenAsk.take 1) _ List.prefix_rfl
    ⟨by decide +kernel, .bid, by decide +kernel, by decide +kernel, by decide +kernel⟩

/-- The ask takes over the sequence of the bid. -/
theorem sides_attributed_fails : ¬ ∀ (image : NbboEvent → List UInt8)
    (layout : ProbeLayout UInt64) (events : List BookEvent),
    (events.map fun ev => (ev.venue, ev.sequence)).Nodup →
      ∀ before, before <+: events → ProvenanceAfter image layout before := by
  intro claimed
  have wrong := claimed (fun _ => []) OrderBookEngine.orderLayout bidThenAsk (by decide) bidThenAsk
    List.prefix_rfl
  obtain ⟨v, venue, recorded⟩ := wrong 0 .bid (by decide +kernel)
  have nasdaq : v = .nasdaq := Venue.code_inj (venue.symm.trans (by decide +kernel))
  subst nasdaq
  exact absurd recorded (by decide +kernel)

end NbboReplay
end FeedHandler
