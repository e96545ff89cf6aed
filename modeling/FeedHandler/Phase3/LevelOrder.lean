import FeedHandler.Lib.Run
import FeedHandler.Phase3.OrderBookSpec
import FeedHandler.Phase3.PriceLevels

/-! The levels of every book stay in price order. The order is what each search of a
level vector relies on and what each insert and erase must leave behind, whether or
not the order table takes the order. -/
namespace FeedHandler

theorem addQty_sorted {descending : Bool} {levels : List BookLevel}
    (sorted : FlatMap.Sorted (priceBefore descending) levels) (price qty : UInt32) :
    FlatMap.Sorted (priceBefore descending) (addQty levels price qty descending) :=
  sorted.alter (priceBefore_strict descending) price _

theorem reduceQty_sorted {descending : Bool} {levels : List BookLevel}
    (sorted : FlatMap.Sorted (priceBefore descending) levels) (price qty : UInt32) :
    FlatMap.Sorted (priceBefore descending) (reduceQty levels price qty descending) :=
  sorted.alter (priceBefore_strict descending) price _

namespace VenueBook

/-- Bids fall and asks rise, strictly. -/
structure Ordered (book : VenueBook) : Prop where
  bids : FlatMap.Sorted (priceBefore true) book.bids
  asks : FlatMap.Sorted (priceBefore false) book.asks

variable {book : VenueBook} {price qty : UInt32}

theorem empty_ordered : ({} : VenueBook).Ordered := ⟨List.Pairwise.nil, List.Pairwise.nil⟩

theorem Ordered.add (ordered : book.Ordered) (side : Side) : (book.add side price qty).Ordered := by
  cases side with
  | buy => exact ⟨addQty_sorted ordered.bids price qty, ordered.asks⟩
  | sell => exact ⟨ordered.bids, addQty_sorted ordered.asks price qty⟩
  | unknown => exact ordered

theorem Ordered.reduce (ordered : book.Ordered) (side : Side) :
    (book.reduce side price qty).Ordered := by
  cases side with
  | buy => exact ⟨reduceQty_sorted ordered.bids price qty, ordered.asks⟩
  | sell => exact ⟨ordered.bids, reduceQty_sorted ordered.asks price qty⟩
  | unknown => exact ordered

theorem Ordered.levels (ordered : book.Ordered) (side : Side) :
    FlatMap.Sorted (priceBefore side.descending) (book.levels side) := by
  cases side with
  | buy => exact ordered.bids
  | sell => exact ordered.asks
  | unknown => exact List.Pairwise.nil

theorem Ordered.bids_fall (ordered : book.Ordered) :
    book.bids.Pairwise fun first second => second.1 < first.1 :=
  ordered.bids.imp fun lt => by simpa [priceBefore] using lt

theorem Ordered.asks_rise (ordered : book.Ordered) :
    book.asks.Pairwise fun first second => first.1 < second.1 :=
  ordered.asks.imp fun lt => by simpa [priceBefore] using lt

/-- The first bid is the highest. -/
theorem Ordered.top_bid (ordered : book.Ordered) (quoted : book.bids ≠ []) :
    (∃ quantity, (book.top.bidPrice, quantity) ∈ book.bids) ∧
      ∀ level ∈ book.bids, level.1 ≤ book.top.bidPrice := by
  have falls := ordered.bids_fall
  simp only [top]
  cases levels : book.bids with
  | nil => exact absurd levels quoted
  | cons best rest =>
    rw [levels] at falls
    refine ⟨⟨best.2, by simp⟩, ?_⟩
    intro level member
    rcases List.mem_cons.mp member with rfl | later
    · exact UInt32.le_refl _
    · exact UInt32.le_of_lt (List.rel_of_pairwise_cons falls later)

/-- The first ask is the lowest. -/
theorem Ordered.top_ask (ordered : book.Ordered) (quoted : book.asks ≠ []) :
    (∃ quantity, (book.top.askPrice, quantity) ∈ book.asks) ∧
      ∀ level ∈ book.asks, book.top.askPrice ≤ level.1 := by
  have rises := ordered.asks_rise
  simp only [top]
  cases levels : book.asks with
  | nil => exact absurd levels quoted
  | cons best rest =>
    rw [levels] at rises
    refine ⟨⟨best.2, by simp⟩, ?_⟩
    intro level member
    rcases List.mem_cons.mp member with rfl | later
    · exact UInt32.le_refl _
    · exact UInt32.le_of_lt (List.rel_of_pairwise_cons rises later)

theorem top_hasBid : book.top.hasBid = true ↔ book.bids ≠ [] := by
  simp [top, List.isEmpty_eq_false_iff]

theorem top_hasAsk : book.top.hasAsk = true ↔ book.asks ≠ [] := by
  simp [top, List.isEmpty_eq_false_iff]

end VenueBook

namespace BookSpec

theorem bookAfter_ordered {book : VenueBook} (ordered : book.Ordered)
    (orders : UInt64 → Option OrderRef) (ev : BookEvent) : (bookAfter orders ev book).Ordered := by
  simp only [bookAfter]
  cases ev.type
  case add | addMpid => exact ordered.add _
  case execute | executePrice | cancel | delete =>
    cases named orders ev with
    | none => exact ordered
    | some order => exact ordered.reduce _
  case replace =>
    simp only [withoutReferenced]
    cases referenced orders ev with
    | none => exact ordered.add _
    | some order => exact (ordered.reduce _).add _
  all_goals exact ordered

end BookSpec

namespace OrderBookEngine
open BookSpec

variable {layout : ProbeLayout UInt64} {e : OrderBookEngine layout}

/-- Every book is in order. -/
def Ordered (e : OrderBookEngine layout) : Prop := ∀ venue symbol, (e.books venue symbol).Ordered

theorem create_ordered : (create layout).Ordered := fun _ _ => VenueBook.empty_ordered

theorem Ordered.step (ordered : e.Ordered) (ev : BookEvent) : (e.step ev).Ordered := by
  intro venue symbol
  rw [step_bookAfter, setBook_book]
  split
  · exact bookAfter_ordered (ordered _ _) _ _
  · exact ordered venue symbol

theorem run_ordered (layout : ProbeLayout UInt64) (events : List BookEvent) :
    (events.foldl step (create layout)).Ordered :=
  Run.invariant (fun _ ev kept => kept.step ev) events create_ordered

end OrderBookEngine
end FeedHandler
