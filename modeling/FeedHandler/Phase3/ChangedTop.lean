import FeedHandler.Phase3.LevelOrder
import FeedHandler.Phase3.NbboReplay

/-! The changed-top flag compares quantities cut to 32 bits. One event moves the quantity
of a level by less than 32 bits hold, and a level that is erased and made anew was and is
that small, so equal cut quantities at one price are equal quantities. -/
namespace FeedHandler

/-- A level whose quantity changes shows it in the low 32 bits. -/
def Telling (before after : Option UInt64) : Prop :=
  ∀ old new, before = some old → after = some new → old.toUInt32 = new.toUInt32 → old = new

theorem telling_same (quantity : Option UInt64) : Telling quantity quantity := by
  intro old new before after _
  rw [before] at after
  exact Option.some.inj after

/-- What a reduction leaves of a level. -/
def reducedLevel (qty : UInt32) : Option UInt64 → Option UInt64
  | some resting => if resting > qty.toUInt64 then some (resting - qty.toUInt64) else none
  | none => none

/-- What an addition makes of a level. -/
def addedLevel (qty : UInt32) : Option UInt64 → Option UInt64
  | some resting => some (resting + qty.toUInt64)
  | none => some qty.toUInt64

theorem low_bits {old new : UInt64} (low : old.toUInt32 = new.toUInt32) :
    old.toNat % 4294967296 = new.toNat % 4294967296 := by
  simpa using congrArg UInt32.toNat low

theorem toNat_narrow (qty : UInt32) : qty.toUInt64.toNat = qty.toNat ∧ qty.toNat < 4294967296 :=
  ⟨UInt32.toNat_toUInt64 qty, qty.toNat_lt⟩

theorem telling_reduced (quantity : Option UInt64) (qty : UInt32) :
    Telling quantity (reducedLevel qty quantity) := by
  rintro old new rfl after low
  simp only [reducedLevel] at after
  split at after
  · next more =>
    cases after
    have bits := low_bits low
    have above := UInt64.lt_iff_toNat_lt.mp more
    obtain ⟨amount, narrow⟩ := toNat_narrow qty
    rw [UInt64.toNat_sub_of_le _ _ (UInt64.le_of_lt more)] at bits
    apply UInt64.toNat_inj.mp
    rw [UInt64.toNat_sub_of_le _ _ (UInt64.le_of_lt more)]
    omega
  · cases after

theorem telling_added (quantity : Option UInt64) (qty : UInt32) :
    Telling quantity (addedLevel qty quantity) := by
  rintro old new rfl after low
  cases after
  have bits := low_bits low
  have wide := old.toNat_lt
  obtain ⟨amount, narrow⟩ := toNat_narrow qty
  rw [UInt64.toNat_add] at bits
  apply UInt64.toNat_inj.mp
  rw [UInt64.toNat_add]
  omega

/-- A replaced order at one price: either the level stays and moves by the difference, or
it was no larger than the old order and is the new one. -/
theorem telling_replaced (quantity : Option UInt64) (oldQty newQty : UInt32) :
    Telling quantity (addedLevel newQty (reducedLevel oldQty quantity)) := by
  rintro old new rfl after low
  have bits := low_bits low
  have wide := old.toNat_lt
  obtain ⟨oldAmount, oldNarrow⟩ := toNat_narrow oldQty
  obtain ⟨newAmount, newNarrow⟩ := toNat_narrow newQty
  simp only [reducedLevel] at after
  split at after
  · next more =>
    cases after
    have above := UInt64.lt_iff_toNat_lt.mp more
    rw [UInt64.toNat_add, UInt64.toNat_sub_of_le _ _ (UInt64.le_of_lt more)] at bits
    apply UInt64.toNat_inj.mp
    rw [UInt64.toNat_add, UInt64.toNat_sub_of_le _ _ (UInt64.le_of_lt more)]
    omega
  · next rest =>
    cases after
    have below := UInt64.le_iff_toNat_le.mp (UInt64.not_lt.mp rest)
    apply UInt64.toNat_inj.mp
    omega

section Levels

variable {descending : Bool} {levels : List BookLevel}

theorem find?_addQty (sorted : FlatMap.Sorted (priceBefore descending) levels)
    (price qty other : UInt32) :
    FlatMap.find? (priceBefore descending) (addQty levels price qty descending) other =
      if other = price then addedLevel qty (FlatMap.find? (priceBefore descending) levels price)
      else FlatMap.find? (priceBefore descending) levels other := by
  rw [addQty, sorted.find?_alter (priceBefore_strict descending)]
  rfl

theorem find?_reduceQty (sorted : FlatMap.Sorted (priceBefore descending) levels)
    (price qty other : UInt32) :
    FlatMap.find? (priceBefore descending) (reduceQty levels price qty descending) other =
      if other = price then reducedLevel qty (FlatMap.find? (priceBefore descending) levels price)
      else FlatMap.find? (priceBefore descending) levels other := by
  rw [reduceQty, sorted.find?_alter (priceBefore_strict descending)]
  rfl

end Levels

namespace VenueBook

variable {book after : VenueBook}

/-- The quantity at a price of one side, if there is a level. -/
def level (book : VenueBook) (side : Side) (price : UInt32) : Option UInt64 :=
  FlatMap.find? (priceBefore side.descending) (book.levels side) price

theorem Ordered.level_add (ordered : book.Ordered) {side : Side} (known : side ≠ .unknown)
    (other : Side) (price qty here : UInt32) :
    (book.add side price qty).level other here =
      if other = side ∧ here = price then addedLevel qty (book.level side price)
      else book.level other here := by
  simp only [level, levels_add side other known]
  by_cases own : other = side
  · subst own
    rw [if_pos rfl, find?_addQty (ordered.levels other)]
    simp
  · rw [if_neg own, if_neg fun both => own both.1]

theorem Ordered.level_reduce (ordered : book.Ordered) (side other : Side)
    (price qty here : UInt32) :
    (book.reduce side price qty).level other here =
      if other = side ∧ here = price then reducedLevel qty (book.level side price)
      else book.level other here := by
  simp only [level, levels_reduce side other]
  by_cases own : other = side
  · subst own
    rw [if_pos rfl, find?_reduceQty (ordered.levels other)]
    simp
  · rw [if_neg own, if_neg fun both => own both.1]

/-- The best levels in full: presence, price and 64-bit quantity. -/
def best (book : VenueBook) : Option BookLevel × Option BookLevel :=
  (book.bids.head?, book.asks.head?)

/-- Where every level tells, so do the best ones: the cut quantities of one price agree only
when the full ones do. -/
theorem telling_head {descending : Bool} {levels others : List BookLevel}
    (sorted : FlatMap.Sorted (priceBefore descending) levels)
    (after : FlatMap.Sorted (priceBefore descending) others)
    (telling : ∀ price, Telling (FlatMap.find? (priceBefore descending) levels price)
      (FlatMap.find? (priceBefore descending) others price))
    (presence : levels.isEmpty = others.isEmpty)
    (price : (levels.head?.map Prod.fst).getD 0 = (others.head?.map Prod.fst).getD 0)
    (qty : (levels.head?.map fun level => level.2.toUInt32).getD 0 =
      (others.head?.map fun level => level.2.toUInt32).getD 0) :
    levels.head? = others.head? := by
  cases first : levels with
  | nil =>
    cases second : others with
    | nil => rfl
    | cons b more => simp [first, second] at presence
  | cons a rest =>
    cases second : others with
    | nil => simp [first, second] at presence
    | cons b more =>
      obtain ⟨a, old⟩ := a
      obtain ⟨b, new⟩ := b
      simp only [first, second, List.head?_cons, Option.map_some, Option.getD_some] at price qty
      subst price
      have here := (sorted.find?_iff (k := a) (v := old) (priceBefore_strict descending)).mpr
        (by simp [first])
      have there := (after.find?_iff (k := a) (v := new) (priceBefore_strict descending)).mpr
        (by simp [second])
      rw [telling a old new here there qty, List.head?_cons, List.head?_cons]

/-- The cut summary tells the best levels apart as soon as every level tells. -/
theorem Ordered.top_eq_iff (ordered : book.Ordered) (kept : after.Ordered)
    (telling : ∀ side price, Telling (book.level side price) (after.level side price)) :
    book.top = after.top ↔ book.best = after.best := by
  constructor
  · intro same
    simp only [top, TopOfBook.mk.injEq, Bool.not_inj_iff] at same
    obtain ⟨bid, ask, bidPrice, bidQty, askPrice, askQty⟩ := same
    exact Prod.ext
      (telling_head ordered.bids kept.bids (telling .buy) bid bidPrice bidQty)
      (telling_head ordered.asks kept.asks (telling .sell) ask askPrice askQty)
  · intro same
    obtain ⟨bids, asks⟩ := Prod.mk.inj same
    have presence : ∀ levels : List BookLevel, levels.isEmpty = levels.head?.isNone := by
      intro levels
      cases levels <;> rfl
    simp only [top, presence, bids, asks]

end VenueBook

namespace BookSpec

variable {book : VenueBook} {ev : BookEvent}

/-- Every level of the book shows in its low bits what one event does to it. -/
theorem bookAfter_telling (ordered : book.Ordered) (orders : UInt64 → Option OrderRef)
    (ev : BookEvent) (side : Side) (price : UInt32) :
    Telling (book.level side price) ((bookAfter orders ev book).level side price) := by
  have added : ∀ qty, Telling (book.level side price)
      ((book.add ev.side ev.price qty).level side price) := by
    intro qty
    by_cases known : ev.side = .unknown
    · rw [known]
      exact telling_same _
    · rw [ordered.level_add known]
      split
      · next own =>
        rw [own.1, own.2]
        exact telling_added _ _
      · exact telling_same _
  have reduced : ∀ (order : OrderRef) qty, Telling (book.level side price)
      ((book.reduce order.side order.price qty).level side price) := by
    intro order qty
    rw [ordered.level_reduce]
    split
    · next own =>
      rw [own.1, own.2]
      exact telling_reduced _ _
    · exact telling_same _
  simp only [bookAfter]
  cases ev.type
  case add | addMpid => exact added _
  case execute | executePrice | cancel | delete =>
    cases named orders ev with
    | none => exact telling_same _
    | some order => exact reduced order _
  case replace =>
    simp only [withoutReferenced]
    cases referenced orders ev with
    | none => exact added _
    | some order =>
      by_cases known : ev.side = .unknown
      · rw [known]
        exact reduced order _
      · rw [(ordered.reduce order.side).level_add known]
        split
        · next own =>
          rw [own.1, own.2, ordered.level_reduce]
          split
          · next both =>
            rw [both.1, both.2]
            exact telling_replaced _ _ _
          · exact telling_added _ _
        · exact reduced order _
  all_goals exact telling_same _

end BookSpec

namespace OrderBookEngine

variable {layout : ProbeLayout UInt64} {e : OrderBookEngine layout}

/-- The flag of an event is exact for the full quantities of the best levels. -/
theorem Ordered.changedTop_iff (ordered : e.Ordered) (ev : BookEvent) :
    (e.onEvent ev).2.changedTop = true ↔
      (e.snapshot ev.venue ev.symbol.asU64).best ≠
        ((e.step ev).snapshot ev.venue ev.symbol.asU64).best := by
  have after : (e.step ev).snapshot ev.venue ev.symbol.asU64 =
      BookSpec.bookAfter e.orders.find? ev (e.books ev.venue ev.symbol.asU64) := by
    rw [snapshot, step_bookAfter, setBook_book, if_pos ⟨rfl, rfl⟩]
  have tops := (ordered ev.venue ev.symbol.asU64).top_eq_iff
    (BookSpec.bookAfter_ordered (ordered _ _) e.orders.find? ev)
    (BookSpec.bookAfter_telling (ordered _ _) e.orders.find? ev)
  rw [(onEvent_top e ev).2]
  simp only [topOfBook, ← after] at tops ⊢
  exact not_congr tops

end OrderBookEngine

namespace NbboReplay

variable {layout : ProbeLayout UInt64}

theorem replay_books (image : NbboEvent → List UInt8) (layout : ProbeLayout UInt64)
    (events : List BookEvent) :
    (replayToJournal image layout events).books =
      events.foldl OrderBookEngine.step (.create layout) :=
  (Run.along_of_forall (Q := fun _ => True) (start layout) events (fun _ _ => trivial)).simulation
    (R := fun s e => s.books = e)
    (fun s e ev same _ => by rw [onEvent_books, same]) rfl

theorem topChanges_loud {image : NbboEvent → List UInt8} {s : NbboReplay layout} {ev : BookEvent}
    (loud : (s.books.onEvent ev).2.changedTop = true) :
    (onEvent image s ev).stats.topChanges = s.stats.topChanges + 1 := by
  simp only [onEvent, loud, Bool.not_true]
  rw [if_neg Bool.false_ne_true]
  split <;> rfl

/-- At every event of every stream the flag is up exactly when the best bid or ask of the
event's book changed, in presence, price or full quantity. No other book changes its best
levels, so the replay counts and passes on every such change. -/
theorem changed_top_exact (image : NbboEvent → List UInt8) (layout : ProbeLayout UInt64)
    (events : List BookEvent) (ev : BookEvent) :
    let s := replayToJournal image layout events
    let before := s.books
    let after := (onEvent image s ev).books
    before = events.foldl OrderBookEngine.step (.create layout) ∧
      after = before.step ev ∧
      ((before.onEvent ev).2.changedTop = true ↔
        (before.snapshot ev.venue ev.symbol.asU64).best ≠
          (after.snapshot ev.venue ev.symbol.asU64).best) ∧
      (∀ venue symbol, (before.snapshot venue symbol).best ≠ (after.snapshot venue symbol).best →
        venue = ev.venue ∧ symbol = ev.symbol.asU64 ∧
          (onEvent image s ev).nbbo = (s.heard ev).1 ∧
          (onEvent image s ev).stats.topChanges = s.stats.topChanges + 1) := by
  intro s before after
  have replayed : before = _ := replay_books image layout events
  have stepped : after = before.step ev := onEvent_books
  have ordered : before.Ordered := by
    rw [replayed]
    exact OrderBookEngine.run_ordered layout events
  have flag := ordered.changedTop_iff ev
  rw [← stepped] at flag
  refine ⟨replayed, stepped, flag, ?_⟩
  intro venue symbol changed
  by_cases own : venue = ev.venue ∧ symbol = ev.symbol.asU64
  · obtain ⟨rfl, rfl⟩ := own
    have loud := flag.mpr changed
    exact ⟨rfl, rfl, (onEvent_loud image loud).1, topChanges_loud loud⟩
  · refine absurd ?_ changed
    rw [stepped, OrderBookEngine.snapshot, OrderBookEngine.snapshot,
      OrderBookEngine.step_bookAfter, OrderBookEngine.setBook_book, if_neg own]

end NbboReplay
end FeedHandler
