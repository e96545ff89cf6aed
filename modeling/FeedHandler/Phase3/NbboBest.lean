import FeedHandler.Lib.FirstBest
import FeedHandler.Phase3.NbboConsolidator
import Mathlib.Algebra.Order.Ring.Int

/-! The best quote over the venues. Both sides run the same scan, once for the highest
bid and once for the lowest ask; of equal prices the venue with the lower index wins. -/
namespace FeedHandler

inductive QuoteSide where
  | bid | ask
  deriving DecidableEq, Repr

namespace QuoteSide

theorem forall_iff {p : QuoteSide → Prop} : (∀ side, p side) ↔ p bid ∧ p ask := by
  refine ⟨fun all => ⟨all bid, all ask⟩, fun both side => ?_⟩
  cases side
  · exact both.1
  · exact both.2

/-- The strict comparison of the scan. -/
def better : QuoteSide → UInt32 → UInt32 → Bool
  | bid, price, best => price > best
  | ask, price, best => price < best

/-- High bids and low asks rank first. -/
def rank : QuoteSide → UInt32 → Int
  | bid, price => price.toNat
  | ask, price => -price.toNat

theorem better_iff (side : QuoteSide) (price best : UInt32) :
    side.better price best = true ↔ side.rank best < side.rank price := by
  cases side <;> simp [better, rank, UInt32.lt_iff_toNat_lt]

end QuoteSide

/-- One side of a top of book or of the consolidated quote. -/
structure Quote where
  present : Bool := false
  price : UInt32 := 0
  qty : UInt32 := 0
  venue : UInt8 := 0
  sequence : UInt64 := 0
  deriving DecidableEq, Repr

namespace Quote

variable {κ : Type*} [LinearOrder κ] {rank : UInt32 → κ} {better : UInt32 → UInt32 → Bool}

/-- The best quote so far and one more offer. -/
def offer (better : UInt32 → UInt32 → Bool) (out quote : Quote) : Quote :=
  if quote.present then if !out.present || better quote.price out.price then quote else out
  else out

/-- Offering the venues' quotes one after the other scans for the first best of those
present. -/
theorem offers_eq (ranked : ∀ a b, better a b = true ↔ rank b < rank a) (quotes : Venue → Quote)
    (venues : List Venue) :
    venues.foldl (fun out venue => offer better out (quotes venue)) {} =
      ((FirstBest.scan (fun venue => rank (quotes venue).price)
        (venues.filter fun venue => (quotes venue).present)).map quotes).getD {} := by
  induction venues using List.reverseRecOn with
  | nil => rfl
  | append_singleton venues venue ih =>
    rw [List.foldl_append, ih, List.filter_append]
    simp only [List.foldl_cons, List.foldl_nil, offer]
    cases present : (quotes venue).present with
    | false => simp [present]
    | true =>
      have chosen : ([venue].filter fun venue => (quotes venue).present) = [venue] := by
        simp [present]
      rw [chosen, FirstBest.scan_append]
      cases earlier : FirstBest.scan (fun venue => rank (quotes venue).price)
          (venues.filter fun venue => (quotes venue).present) with
      | none => rfl
      | some best =>
        have shown : (quotes best).present = true :=
          (List.mem_filter.mp (FirstBest.scan_isFirstBest earlier).mem).2
        simp only [Option.map_some, Option.getD_some, shown, Bool.not_true, Bool.false_or,
          FirstBest.pick, if_true, ranked]
        split <;> rfl

/-- A best quote: some venue's own, as good as every other and better than those of the
venues before it. -/
structure BestOf (rank : UInt32 → κ) (quotes : Venue → Quote) (best : Quote) : Prop where
  present : best.present = true ↔ ∃ v, (quotes v).present = true
  best : best.present = true → ∃ v, best = quotes v ∧
    ∀ w, (quotes w).present = true → rank (quotes w).price ≤ rank best.price ∧
      (w.code < v.code → rank (quotes w).price < rank best.price)

/-- A best quote that is present is the quote of one of the venues. -/
theorem BestOf.attained {best : Quote} (is_best : BestOf rank quotes best)
    (shown : best.present = true) :
    ∃ v, (quotes v).present = true ∧ best.venue = (quotes v).venue ∧
      best.price = (quotes v).price ∧ best.qty = (quotes v).qty ∧
      ∀ w, (quotes w).present = true → rank (quotes w).price ≤ rank best.price ∧
        (w.code < v.code → rank (quotes w).price < rank best.price) := by
  obtain ⟨v, same, above⟩ := is_best.best shown
  have present := (congrArg Quote.present same).symm.trans shown
  exact ⟨v, present, congrArg Quote.venue same, congrArg Quote.price same, congrArg Quote.qty same,
    above⟩

theorem venues_sorted : Venue.all.Pairwise fun v w => v.code < w.code := by decide

theorem bestOf_offers (ranked : ∀ a b, better a b = true ↔ rank b < rank a)
    (quotes : Venue → Quote) :
    BestOf rank quotes
      (Venue.all.foldl (fun out venue => offer better out (quotes venue)) {}) := by
  rw [offers_eq ranked]
  cases found : FirstBest.scan (fun venue => rank (quotes venue).price)
      (Venue.all.filter fun venue => (quotes venue).present) with
  | none =>
    have absent : ∀ v, (quotes v).present ≠ true := fun v =>
      List.filter_eq_nil_iff.mp (FirstBest.scan_eq_none.mp found) v v.mem_all
    refine ⟨⟨fun shown => absurd shown Bool.false_ne_true, ?_⟩,
      fun shown => absurd shown Bool.false_ne_true⟩
    rintro ⟨v, present⟩
    exact absurd present (absent v)
  | some v =>
    have first := FirstBest.scan_isFirstBest found
    have shown : (quotes v).present = true := (List.mem_filter.mp first.mem).2
    refine ⟨⟨fun _ => ⟨v, shown⟩, fun _ => shown⟩, fun _ => ⟨v, rfl, fun w present => ?_⟩⟩
    have member : w ∈ Venue.all.filter fun venue => (quotes venue).present :=
      List.mem_filter.mpr ⟨w.mem_all, present⟩
    refine ⟨first.most w member, fun earlier => ?_⟩
    exact first.lt_of_earlier (venues_sorted.filter _)
      (fun _ _ before after => UInt8.lt_asymm before after) member earlier

/-- The venue of the best quote depends on presence and prices alone. -/
theorem BestOf.venue_eq {quotes others : Venue → Quote} {best other : Quote}
    (first : BestOf rank quotes best) (second : BestOf rank others other)
    (coded : ∀ v, (quotes v).venue = v.code ∧ (others v).venue = v.code)
    (same : ∀ v, (quotes v).present = (others v).present ∧ (quotes v).price = (others v).price)
    (present : best.present = true) : best.venue = other.venue := by
  have shown : other.present = true := by
    obtain ⟨v, quoted⟩ := first.present.mp present
    exact second.present.mpr ⟨v, (same v).1 ▸ quoted⟩
  obtain ⟨v, rfl, above⟩ := first.best present
  obtain ⟨w, rfl, beyond⟩ := second.best shown
  have mine := above w ((same w).1.trans shown)
  have yours := beyond v ((same v).1.symm.trans present)
  rw [(same w).2] at mine
  rw [← (same v).2] at yours
  rw [(coded v).1, (coded w).2]
  rcases lt_trichotomy v.code.toNat w.code.toNat with before | equal | after
  · exact absurd (yours.2 (UInt8.lt_iff_toNat_lt.mpr before)) (not_lt.mpr mine.1)
  · exact UInt8.toNat_inj.mp equal
  · exact absurd (mine.2 (UInt8.lt_iff_toNat_lt.mpr after)) (not_lt.mpr yours.1)

end Quote

/-- One side of the top of one venue. -/
def VenueTop.side (v : VenueTop) (venue : Venue) : QuoteSide → Quote
  | .bid => ⟨v.hasBid, v.bidPrice, v.bidQty, venue.code, v.bidSequence⟩
  | .ask => ⟨v.hasAsk, v.askPrice, v.askQty, venue.code, v.askSequence⟩

def Nbbo.side (nbbo : Nbbo) : QuoteSide → Quote
  | .bid => ⟨nbbo.hasBid, nbbo.bidPrice, nbbo.bidQty, nbbo.bidVenue, nbbo.bidVenueSequence⟩
  | .ask => ⟨nbbo.hasAsk, nbbo.askPrice, nbbo.askQty, nbbo.askVenue, nbbo.askVenueSequence⟩

/-- The quotes of a venue's top, without their sequences. -/
def VenueTop.top (v : VenueTop) : TopOfBook where
  hasBid := v.hasBid
  hasAsk := v.hasAsk
  bidPrice := v.bidPrice
  bidQty := v.bidQty
  askPrice := v.askPrice
  askQty := v.askQty

@[simp] theorem VenueTop.side_venue (v : VenueTop) (venue : Venue) (side : QuoteSide) :
    (v.side venue side).venue = venue.code := by
  cases side <;> rfl

@[simp] theorem VenueTop.top_stampTop (v : VenueTop) (top : TopOfBook) (venueSequence : UInt64) :
    (NbboConsolidator.stampTop v top venueSequence).top = top := rfl

namespace NbboConsolidator

theorem offerBid_side (out : Nbbo) (venue : Venue) (v : VenueTop) (side : QuoteSide) :
    (offerBid out venue v).side side =
      if side = .bid then Quote.offer side.better (out.side side) (v.side venue side)
      else out.side side := by
  cases present : v.hasBid with
  | false => cases side <;> simp [offerBid, Quote.offer, VenueTop.side, present]
  | true =>
    by_cases better : out.hasBid = false ∨ out.bidPrice < v.bidPrice <;> cases side <;>
      simp [offerBid, Quote.offer, Nbbo.side, VenueTop.side, QuoteSide.better, present, better]

theorem offerAsk_side (out : Nbbo) (venue : Venue) (v : VenueTop) (side : QuoteSide) :
    (offerAsk out venue v).side side =
      if side = .ask then Quote.offer side.better (out.side side) (v.side venue side)
      else out.side side := by
  cases present : v.hasAsk with
  | false => cases side <;> simp [offerAsk, Quote.offer, VenueTop.side, present]
  | true =>
    by_cases better : out.hasAsk = false ∨ v.askPrice < out.askPrice <;> cases side <;>
      simp [offerAsk, Quote.offer, Nbbo.side, VenueTop.side, QuoteSide.better, present, better]

/-- The two sides of the scan do not meet. -/
theorem compute_side (state : SymbolState) (side : QuoteSide) :
    (compute state).side side = Venue.all.foldl (fun out venue =>
      Quote.offer side.better out ((state.venues venue).side venue side)) {} := by
  have apart : ∀ (venues : List Venue) (out : Nbbo),
      (venues.foldl (fun out venue => offerAsk (offerBid out venue (state.venues venue)) venue
          (state.venues venue)) out).side side =
        venues.foldl (fun out venue =>
          Quote.offer side.better out ((state.venues venue).side venue side)) (out.side side) := by
    intro venues
    induction venues with
    | nil => exact fun _ => rfl
    | cons venue rest ih =>
      intro out
      rw [List.foldl_cons, List.foldl_cons, ih, offerAsk_side, offerBid_side]
      cases side <;> simp
  have start : ({} : Nbbo).side side = {} := by cases side <;> rfl
  rw [← start]
  exact apart Venue.all {}

/-- The best bid has the highest price, the best ask the lowest. -/
theorem compute_best (state : SymbolState) (side : QuoteSide) :
    Quote.BestOf side.rank (fun venue => (state.venues venue).side venue side)
      ((compute state).side side) := by
  rw [compute_side]
  exact Quote.bestOf_offers side.better_iff _

end NbboConsolidator
end FeedHandler
