import FeedHandler.Phase3.ChangedTop
import FeedHandler.Phase3.ItchBook
import FeedHandler.Phase3.OrderTableSession

/-! What a rejected order leaves behind. The level grows before the table is asked, and
nothing takes the growth back when the table has no room, so the books keep the quantity
of an order that no later event can name. -/
namespace FeedHandler

namespace VenueBook

variable {book : VenueBook} {side : Side} {price qty : UInt32}

theorem Ordered.find?_eq (ordered : book.Ordered) (quantity : UInt64) :
    book.level side price = some quantity ↔ (price, quantity) ∈ book.levels side :=
  (ordered.levels side).find?_iff (priceBefore_strict side.descending)

/-- Books in order with the same levels are the same. -/
theorem Ordered.ext {other : VenueBook} (ordered : book.Ordered) (also : other.Ordered)
    (same : ∀ side price, side ≠ .unknown → book.level side price = other.level side price) :
    book = other := by
  have levels : ∀ side, side ≠ .unknown → book.levels side = other.levels side := by
    intro side known
    refine (ordered.levels side).ext (priceBefore_strict side.descending) (also.levels side) ?_
    rintro ⟨price, quantity⟩
    rw [← ordered.find?_eq, ← also.find?_eq, same side price known]
  have bids := levels .buy (by decide)
  have asks := levels .sell (by decide)
  obtain ⟨_, _⟩ := book
  obtain ⟨_, _⟩ := other
  simp only [VenueBook.levels] at bids asks
  rw [bids, asks]

/-- Adding does not show on an unknown side, and with quantity zero at a level that is there. -/
theorem Ordered.add_eq_self_iff (ordered : book.Ordered) :
    book.add side price qty = book ↔
      side = .unknown ∨ (qty = 0 ∧ ∃ quantity, (price, quantity) ∈ book.levels side) := by
  constructor
  · intro same
    by_cases known : side = .unknown
    · exact Or.inl known
    · have level := ordered.level_add known side price qty price
      rw [same, if_pos ⟨rfl, rfl⟩] at level
      cases present : book.level side price with
      | none =>
        rw [present] at level
        cases level
      | some quantity =>
        rw [present] at level
        refine Or.inr ⟨?_, quantity, (ordered.find?_eq quantity).mp present⟩
        have sum := congrArg UInt64.toNat (Option.some.inj level)
        obtain ⟨amount, narrow⟩ := toNat_narrow qty
        have wide := quantity.toNat_lt
        rw [UInt64.toNat_add] at sum
        apply UInt32.toNat_inj.mp
        rw [UInt32.toNat_zero]
        omega
  · rintro (rfl | ⟨rfl, quantity, listed⟩)
    · rfl
    · by_cases known : side = .unknown
      · rw [known]
        rfl
      · refine (ordered.add side).ext ordered fun other here _ => ?_
        rw [ordered.level_add known]
        split
        · next own =>
          rw [own.1, own.2, (ordered.find?_eq quantity).mpr listed]
          simp [addedLevel]
        · rfl

end VenueBook

namespace OrderBookEngine

variable {layout : ProbeLayout UInt64} {e : OrderBookEngine layout} {ev : BookEvent}

/-- The books without the order of the event: a Replace has still taken the old one off. -/
def booksWithoutOrder (e : OrderBookEngine layout) (ev : BookEvent) : Venue → UInt64 → VenueBook :=
  if ev.type = .replace then (e.withoutReferenced ev).books else e.books

/-- When the table reports that it could not store the order, the books are without it. -/
def RejectionClean (e : OrderBookEngine layout) (ev : BookEvent) : Prop :=
  (e.onEvent ev).2.orderTableSaturated = true → (e.step ev).books = e.booksWithoutOrder ev

/-- The table, at most half live, has an unused slot or the key itself for the order; or
the order has no side, or no quantity at a price that has a level. -/
def FitsOrHides (e : OrderBookEngine layout) (ev : BookEvent) : Prop :=
  StoresOrder ev →
    ((e.tableAtPut ev).live ≤ layout.size / 2 ∧
        (e.tableAtPut ev).HasRoom (orderKey ev.venue ev.orderId)) ∨
      ev.side = .unknown ∨
      (ev.qty = 0 ∧ ∃ quantity, (ev.price, quantity) ∈
        (e.booksWithoutOrder ev ev.venue ev.symbol.asU64).levels ev.side)

theorem booksWithoutOrder_ordered (ordered : e.Ordered) (ev : BookEvent) :
    (e.booksWithoutOrder ev ev.venue ev.symbol.asU64).Ordered := by
  simp only [booksWithoutOrder]
  split
  · rw [withoutReferenced_books, setBook_book, if_pos ⟨rfl, rfl⟩, BookSpec.withoutReferenced]
    cases BookSpec.referenced e.orders.find? ev with
    | none => exact ordered _ _
    | some order => exact (ordered _ _).reduce _
  · exact ordered _ _

/-- An event that stores an order adds it to its own book, stored or not. -/
theorem step_books_stores (stores : StoresOrder ev) :
    (e.step ev).books = Function.update (e.booksWithoutOrder ev) ev.venue
      (Function.update (e.booksWithoutOrder ev ev.venue) ev.symbol.asU64
        ((e.booksWithoutOrder ev ev.venue ev.symbol.asU64).add ev.side ev.price ev.qty)) := by
  obtain ⟨stored, _⟩ := stores
  simp only [step, onEvent, apply, booksWithoutOrder]
  cases kind : ev.type <;> simp only [kind, EventType.adds] at stored
  case add | addMpid => exact putOrder_books _ _ _
  case replace =>
    rw [applyReplace_eq, putOrder_books, if_pos rfl]
    rfl
  all_goals simp at stored

theorem saturated_iff (counted : e.orders.Counted) (stores : StoresOrder ev) :
    (e.onEvent ev).2.orderTableSaturated = true ↔
      ¬ ((e.tableAtPut ev).live ≤ layout.size / 2 ∧
        (e.tableAtPut ev).HasRoom (orderKey ev.venue ev.orderId)) := by
  obtain ⟨order, _, saturated⟩ := onEvent_stores (e := e) stores
  have taken := ProbeTable.put_accepted_iff (t := e.tableAtPut ev)
    (k := orderKey ev.venue ev.orderId) (v := order)
  rw [(tableAtPut_counted counted ev).count] at taken
  rw [saturated, Bool.not_eq_true', ← taken, Bool.not_eq_true]

theorem rejectionClean_iff (counted : e.orders.Counted) (ordered : e.Ordered) (ev : BookEvent) :
    e.RejectionClean ev ↔ e.FitsOrHides ev := by
  by_cases stores : StoresOrder ev
  · have hidden : (e.step ev).books = e.booksWithoutOrder ev ↔
        ev.side = .unknown ∨ (ev.qty = 0 ∧ ∃ quantity, (ev.price, quantity) ∈
          (e.booksWithoutOrder ev ev.venue ev.symbol.asU64).levels ev.side) := by
      rw [step_books_stores stores, Function.update_eq_self_iff, Function.update_eq_self_iff]
      exact (booksWithoutOrder_ordered ordered ev).add_eq_self_iff
    simp only [RejectionClean, FitsOrHides, saturated_iff counted stores, hidden, stores,
      true_imp_iff]
    exact (or_iff_not_imp_left (a := _ ∧ _)).symm
  · simp only [RejectionClean, FitsOrHides, onEvent_idle stores]
    exact ⟨fun _ stored => absurd stored stores, fun _ flag => absurd flag Bool.false_ne_true⟩

theorem run_counted (layout : ProbeLayout UInt64) (events : List BookEvent) :
    (events.foldl step (create layout)).orders.Counted :=
  Run.invariant (P := fun e : OrderBookEngine layout => e.orders.Counted)
    (fun _ ev kept => counted_step kept ev) events ProbeTable.create_counted

/-- In every reachable state an order that the table rejects leaves the books alone exactly
when it would not show in them. -/
theorem rejected_order_clean_iff (layout : ProbeLayout UInt64) (events : List BookEvent)
    (ev : BookEvent) :
    (events.foldl step (create layout)).RejectionClean ev ↔
      (events.foldl step (create layout)).FitsOrHides ev :=
  rejectionClean_iff (run_counted layout events) (run_ordered layout events) ev

/-- A buy order for one at price one. -/
def unitBuy (id : Nat) : BookEvent where
  type := .add
  orderId := UInt64.ofNat id
  qty := 1
  price := 1
  side := .buy

/-- One unit order after the other, each with an id of its own. -/
def fillingSession (count : Nat) : List BookEvent :=
  (List.range count).map fun i => unitBuy (i + 1)

/-- The table after `count` unit orders, if it took them all. -/
structure Filled (e : OrderBookEngine layout) (count : Nat) : Prop where
  counted : e.orders.Counted
  total : e.orders.count = count
  unused : layout.size ≤ e.orders.unusedSlots + count
  keys : ∀ key order, e.orders.Holds key order → ∃ i < count, key = UInt64.ofNat (i + 1)

theorem unitBuy_stores {id : Nat} (positive : 0 < id) (word : id < wordSize) :
    StoresOrder (unitBuy id) := by
  refine ⟨Or.inl rfl, fun zero => ?_⟩
  have value := congrArg UInt64.toNat zero
  rw [unitBuy, UInt64.toNat_ofNat_of_lt' word, UInt64.toNat_zero] at value
  omega

/-- The ids so far are smaller words, so the next one is new. -/
theorem Filled.next_missing {count : Nat} (filled : e.Filled count) (word : count + 1 < wordSize)
    (order : OrderRef) : ¬ e.orders.Holds (UInt64.ofNat (count + 1)) order := by
  intro held
  obtain ⟨i, before, same⟩ := filled.keys _ order held
  have value := congrArg UInt64.toNat same
  rw [UInt64.toNat_ofNat_of_lt' word, UInt64.toNat_ofNat_of_lt' (i.succ_lt_succ before |>.trans word)] at value
  omega

theorem Filled.step {count : Nat} (filled : e.Filled count) (half : count ≤ layout.size / 2)
    (word : count + 1 < wordSize) : (e.step (unitBuy (count + 1))).Filled (count + 1) := by
  obtain ⟨order, orders, _⟩ := onEvent_stores (e := e)
    (unitBuy_stores (Nat.succ_pos count) word)
  have table : e.tableAtPut (unitBuy (count + 1)) = e.orders := rfl
  have key : orderKey (unitBuy (count + 1)).venue (unitBuy (count + 1)).orderId =
      UInt64.ofNat (count + 1) := orderKey_nasdaq _
  rw [table, key] at orders
  have positive := layout.size_pos
  have room : e.orders.HasRoom (UInt64.ofNat (count + 1)) := by
    refine Or.inl (ProbeTable.unusedSlots_pos.mp ?_)
    have unused := filled.unused
    omega
  have accepted : (e.orders.put (UInt64.ofNat (count + 1)) order).2 = true :=
    ProbeTable.put_accepted_iff.mpr ⟨filled.total ▸ half, room⟩
  have stored := filled.counted.sound.put accepted
  have missing := filled.next_missing word
  refine ⟨orders ▸ filled.counted.put _ _, ?_, ?_, ?_⟩
  · rw [orders, stored.count missing, filled.total]
  · have used := ProbeTable.unusedSlots_put (t := e.orders) (k := UInt64.ofNat (count + 1))
      (v := order)
    have unused := filled.unused
    rw [orders]
    omega
  · intro other w held
    rw [orders, stored.holds] at held
    split at held
    · next same => exact ⟨count, Nat.lt_succ_self count, same⟩
    · obtain ⟨i, before, same⟩ := filled.keys other w held
      exact ⟨i, Nat.lt_succ_of_lt before, same⟩

theorem fillingSession_filled (layout : ProbeLayout UInt64) (count : Nat)
    (half : count ≤ layout.size / 2 + 1) (word : count < wordSize) :
    ((fillingSession count).foldl step (create layout)).Filled count := by
  induction count with
  | zero =>
    refine ⟨ProbeTable.create_counted, rfl, ?_, ?_⟩
    · exact ProbeTable.unusedSlots_create.ge
    · rintro key order ⟨i, here⟩
      cases here
  | succ count ih =>
    have session : fillingSession (count + 1) = fillingSession count ++ [unitBuy (count + 1)] := by
      simp [fillingSession, List.range_succ]
    rw [session, List.foldl_append]
    exact (ih (by omega) (by omega)).step (by omega) word

/-- Deleting an order that the table does not have changes nothing. -/
theorem step_delete_missing (sound : e.orders.Sound) (delete : ev.type = .delete)
    (missing : ∀ order, ¬ e.orders.Holds (orderKey ev.venue ev.orderId) order) : e.step ev = e := by
  have absent : e.orders.find? (orderKey ev.venue ev.orderId) = none := by
    refine Option.eq_none_iff_forall_ne_some.mpr fun order found => ?_
    exact missing order (sound.find?_iff.mp found)
  simp only [step, onEvent, apply, delete, applyReduce, absent]

/-- Once more than half of the table is live, the next order is reported as rejected, its
quantity stays in the books, and deleting the order changes nothing. -/
theorem Filled.rejects {count late : Nat} (filled : e.Filled count) (ordered : e.Ordered)
    (full : layout.size / 2 < count) (next : count + 1 = late) (word : late < wordSize) :
    (e.onEvent (unitBuy late)).2.orderTableSaturated = true ∧
      (e.step (unitBuy late)).books ≠ e.books ∧
      ((e.step (unitBuy late)).step { unitBuy late with type := .delete }).books =
        (e.step (unitBuy late)).books := by
  subst next
  have stores := unitBuy_stores (Nat.succ_pos count) word
  have more : ¬ e.orders.live ≤ layout.size / 2 := by
    rw [← filled.counted.count, filled.total]
    omega
  have saturated : (e.onEvent (unitBuy (count + 1))).2.orderTableSaturated = true :=
    (saturated_iff filled.counted stores).mpr fun fits => more fits.1
  refine ⟨saturated, ?_, ?_⟩
  · intro clean
    rcases (rejectionClean_iff filled.counted ordered _).mp (fun _ => clean) stores with
      fits | side | hidden
    · exact more fits.1
    · cases side
    · exact absurd hidden.1 (by decide : (1 : UInt32) ≠ 0)
  · obtain ⟨order, orders, flag⟩ := onEvent_stores (e := e) stores
    have rejected :
        (e.orders.put (orderKey .nasdaq (UInt64.ofNat (count + 1))) order).2 = false := by
      rw [saturated] at flag
      exact (Bool.not_eq_true' _).mp flag.symm
    have slots : (e.step (unitBuy (count + 1))).orders.slots = e.orders.slots := by
      rw [orders]
      exact (ProbeTable.put_rejected_slots rejected).1
    rw [step_delete_missing (filled.counted.sound.of_slots slots) rfl]
    rintro other ⟨i, here⟩
    have key : orderKey .nasdaq (UInt64.ofNat (count + 1)) = UInt64.ofNat (count + 1) :=
      orderKey_nasdaq _
    refine filled.next_missing word other ⟨i, ?_⟩
    rw [← key, ← slots]
    exact here

theorem orderLayout_half : orderLayout.size / 2 = 1048576 := rfl

theorem fillingSession_full :
    ((fillingSession 1048577).foldl step initial).Filled 1048577 :=
  fillingSession_filled orderLayout 1048577 (by rw [orderLayout_half]) (by decide)

/-- The table as it is built is half full and one more after 1048577 orders. -/
theorem rejected_order_stays :
    let e := (fillingSession 1048577).foldl step initial
    (e.onEvent (unitBuy 1048578)).2.orderTableSaturated = true ∧
      (e.step (unitBuy 1048578)).books ≠ e.books ∧
      ((e.step (unitBuy 1048578)).step { unitBuy 1048578 with type := .delete }).books =
        (e.step (unitBuy 1048578)).books :=
  fillingSession_full.rejects (run_ordered orderLayout _) (by rw [orderLayout_half]; decide) rfl
    (by decide)

end OrderBookEngine
end FeedHandler
