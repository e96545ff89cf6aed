import FeedHandler.Lib.ProbeTableSum
import FeedHandler.Lib.Run
import FeedHandler.Phase3.OrderBookSpec
import FeedHandler.Phase3.PriceLevels

/-! Conservation in the reference book: what a level shows against what the live entries
of the order table add up to. Every event kind keeps the two in balance except a Delete
that carries part of the order's quantity: it takes the part off the level and the
whole order off the table. -/
namespace FeedHandler

/-- What an order counts for at one place of the books. -/
def OrderRef.restsAt (order : OrderRef) (venue : Venue) (symbol : UInt64) (side : Side)
    (price : UInt32) : Nat :=
  if order.venue = venue ∧ order.symbolU64 = symbol ∧ order.side = side ∧ order.price = price then
    order.qty.toNat
  else 0

theorem OrderRef.restsAt_own (order : OrderRef) :
    order.restsAt order.venue order.symbolU64 order.side order.price = order.qty.toNat :=
  if_pos ⟨rfl, rfl, rfl, rfl⟩

/-- An order that loses part of its quantity counts for that much less at its place. -/
theorem OrderRef.restsAt_shrunk (order : OrderRef) {amount : UInt32} (enough : amount ≤ order.qty)
    (venue : Venue) (symbol : UInt64) (side : Side) (price : UInt32) :
    ({ order with qty := order.qty - amount } : OrderRef).restsAt venue symbol side price +
      (if order.venue = venue ∧ order.symbolU64 = symbol ∧ order.side = side ∧ order.price = price
        then amount.toNat else 0) = order.restsAt venue symbol side price := by
  have difference := UInt32.toNat_sub_of_le _ _ enough
  have within := UInt32.le_iff_toNat_le.mp enough
  simp only [OrderRef.restsAt]
  split
  · rw [difference]
    omega
  · rfl

namespace OrderBookEngine
open BookSpec (broughtOrder taken taken_le)

variable {layout : ProbeLayout UInt64} {e : OrderBookEngine layout} {ev : BookEvent}

/-- The remaining quantity of the live entries at one place of the books. -/
def restingQty (e : OrderBookEngine layout) (venue : Venue) (symbol : UInt64) (side : Side)
    (price : UInt32) : Nat :=
  e.orders.total (fun _ order => order.restsAt venue symbol side price)

/-- Every level has the quantity of its live entries, and is there iff that is positive. -/
def Conserved (e : OrderBookEngine layout) : Prop :=
  ∀ venue symbol side price, side ≠ Side.unknown →
    LevelExact ((e.snapshot venue symbol).levels side) price (e.restingQty venue symbol side price)

/-- An id that is neither zero nor uses the byte of the venue. -/
def ValidId (id : UInt64) : Prop := id ≠ 0 ∧ id.toNat < 2 ^ 56

instance (id : UInt64) : Decidable (ValidId id) := inferInstanceAs (Decidable (_ ∧ _))

/-- If the id names a live order, the event carries that order's venue and symbol. -/
def Carries (e : OrderBookEngine layout) (ev : BookEvent) (id : UInt64) : Prop :=
  ∀ order ∈ e.orders.find? (orderKey ev.venue id),
    order.venue = ev.venue ∧ order.symbolU64 = ev.symbol.asU64

/-- The event brings a new order with a side and a quantity. -/
structure Enters (ev : BookEvent) : Prop where
  valid : ValidId ev.orderId
  known : ev.side ≠ .unknown
  positive : 0 < ev.qty

/-- The streams of the conservation law: new ids for new orders (a Replace may take over the
id that it replaces), reductions addressed to the order's own book, no saturation. -/
structure Lawful (e : OrderBookEngine layout) (ev : BookEvent) : Prop where
  adds : ev.type.adds = true →
    Enters ev ∧ e.orders.find? (orderKey ev.venue ev.orderId) = none
  reduces : ev.type.reduces = true → ValidId ev.orderId ∧ e.Carries ev ev.orderId
  replaces : ev.type = .replace → Enters ev ∧ ValidId ev.referenceOrderId ∧
    e.Carries ev ev.referenceOrderId ∧
    (ev.orderId = ev.referenceOrderId ∨ e.orders.find? (orderKey ev.venue ev.orderId) = none)
  unsaturated : (e.onEvent ev).2.orderTableSaturated = false

/-- A Delete of a live order carries quantity zero or all that remains. -/
def DeletesWhole (e : OrderBookEngine layout) (ev : BookEvent) : Prop :=
  ev.type = .delete → ∀ order ∈ e.orders.find? (orderKey ev.venue ev.orderId),
    ev.qty = 0 ∨ order.qty ≤ ev.qty

/-- Table and books in balance. -/
structure Balanced (e : OrderBookEngine layout) : Prop where
  sound : e.orders.Sound
  known : ∀ key order, e.orders.Holds key order → order.side ≠ .unknown
  books : ∀ venue symbol, (e.books venue symbol).Displays (e.restingQty venue symbol)

theorem create_balanced : (create layout).Balanced where
  sound := ProbeTable.create_sound
  known := by
    rintro key order ⟨i, held⟩
    cases held
  books := by
    intro venue symbol
    have nothing : (create layout).restingQty venue symbol = fun _ _ => 0 := by
      funext side price
      exact ProbeTable.total_create _
    rw [nothing]
    exact VenueBook.empty_displays

theorem Balanced.conserved (balanced : e.Balanced) : e.Conserved :=
  fun venue symbol side price known => (balanced.books venue symbol side known).levelExact price

/-- No total leaves 64 bits. -/
theorem restingQty_small (small : layout.size ≤ 2 ^ 32) (e : OrderBookEngine layout)
    (venue : Venue) (symbol : UInt64) (side : Side) (price : UInt32) :
    e.restingQty venue symbol side price < wordSize := by
  have each : ∀ (key : UInt64) (order : OrderRef),
      order.restsAt venue symbol side price ≤ 2 ^ 32 - 1 := by
    intro _ order
    have bound := order.qty.toNat_lt
    simp only [OrderRef.restsAt]
    split <;> omega
  have total := ProbeTable.total_le (t := e.orders)
    (fun _ order => order.restsAt venue symbol side price) each
  have capacity : layout.size * (2 ^ 32 - 1) ≤ 2 ^ 32 * (2 ^ 32 - 1) :=
    Nat.mul_le_mul_right _ small
  simp only [restingQty, wordSize]
  omega

/-- A new order, in the table and at its level. -/
theorem Balanced.enter (small : layout.size ≤ 2 ^ 32) (balanced : e.Balanced) {key : UInt64}
    (order : OrderRef) {e' : OrderBookEngine layout} (missing : ∀ w, ¬ e.orders.Holds key w)
    (known : order.side ≠ .unknown) (positive : 0 < order.qty)
    (accepted : (e.orders.put key order).2 = true) (orders : e'.orders = (e.orders.put key order).1)
    (books : e'.books = (e.setBook order.venue order.symbolU64
      ((e.books order.venue order.symbolU64).add order.side order.price order.qty)).books) :
    e'.Balanced := by
  have stored := balanced.sound.put accepted
  have grown : ∀ venue symbol side price, e'.restingQty venue symbol side price =
      e.restingQty venue symbol side price + order.restsAt venue symbol side price := by
    intro venue symbol side price
    simp only [restingQty, orders]
    exact balanced.sound.total_put _ missing accepted
  constructor
  · rw [orders]
    exact stored.sound
  · intro other held
    rw [orders, stored.holds]
    split
    · rintro rfl
      exact known
    · exact balanced.known other held
  · intro venue symbol
    rw [books, setBook_book]
    split
    · next here =>
      obtain ⟨rfl, rfl⟩ := here
      refine (balanced.books _ _).add known positive (restingQty_small small e' _ _) ?_
      intro side price
      rw [grown]
      simp [OrderRef.restsAt, eq_comm]
    · next apart =>
      have unchanged : e'.restingQty venue symbol = e.restingQty venue symbol := by
        funext side price
        rw [grown, OrderRef.restsAt, if_neg (fun own => apart ⟨own.1.symm, own.2.1.symm⟩),
          Nat.add_zero]
      rw [unchanged]
      exact balanced.books venue symbol

/-- Taking the same amount off an order and off its level. -/
theorem Balanced.lower (balanced : e.Balanced) {order : OrderRef} {amount : UInt32}
    {e' : OrderBookEngine layout} (sound : e'.orders.Sound)
    (known : ∀ key left, e'.orders.Holds key left → left.side ≠ .unknown)
    (shrunk : ∀ venue symbol side price, e'.restingQty venue symbol side price +
      (if order.venue = venue ∧ order.symbolU64 = symbol ∧ order.side = side ∧
        order.price = price then amount.toNat else 0) = e.restingQty venue symbol side price)
    (books : e'.books = (e.setBook order.venue order.symbolU64
      ((e.books order.venue order.symbolU64).reduce order.side order.price amount)).books) :
    e'.Balanced := by
  refine ⟨sound, known, ?_⟩
  intro venue symbol
  rw [books, setBook_book]
  split
  · next here =>
    obtain ⟨rfl, rfl⟩ := here
    refine (balanced.books _ _).reduce ?_
    intro side price
    rw [← shrunk order.venue order.symbolU64 side price]
    simp [eq_comm]
  · next apart =>
    have unchanged : e'.restingQty venue symbol = e.restingQty venue symbol := by
      funext side price
      have part := shrunk venue symbol side price
      rwa [if_neg (fun own => apart ⟨own.1.symm, own.2.1.symm⟩), Nat.add_zero] at part
    rw [unchanged]
    exact balanced.books venue symbol

theorem missing_of_find? (sound : e.orders.Sound) {key : UInt64}
    (absent : e.orders.find? key = none) (order : OrderRef) : ¬ e.orders.Holds key order := by
  intro held
  rw [sound.find?_iff.mpr held] at absent
  cases absent

/-- Adding to the level and storing the order, as Add and Replace do. -/
theorem Balanced.put (small : layout.size ≤ 2 ^ 32) (balanced : e.Balanced) (enters : Enters ev)
    (missing : ∀ w, ¬ e.orders.Holds (orderKey ev.venue ev.orderId) w) {ahead : UInt64}
    (stored : ((e.setBook ev.venue ev.symbol.asU64
      ((e.books ev.venue ev.symbol.asU64).add ev.side ev.price ev.qty)).putOrder ev ahead).2 =
        false) :
    ((e.setBook ev.venue ev.symbol.asU64
      ((e.books ev.venue ev.symbol.asU64).add ev.side ev.price ev.qty)).putOrder ev
        ahead).1.Balanced := by
  simp only [putOrder, if_neg enters.valid.1, Bool.not_eq_false'] at stored ⊢
  exact balanced.enter small (broughtOrder ev ahead) missing enters.known
    enters.positive stored rfl rfl

theorem Balanced.applyAdd (small : layout.size ≤ 2 ^ 32) (balanced : e.Balanced)
    (enters : Enters ev) (absent : e.orders.find? (orderKey ev.venue ev.orderId) = none)
    (unsaturated : (e.applyAdd ev).2.1 = false) : (e.applyAdd ev).1.Balanced :=
  balanced.put small enters (missing_of_find? balanced.sound absent) unsaturated

/-- An order leaves the table and its whole quantity leaves the level. -/
theorem Balanced.leave (balanced : e.Balanced) {key : UInt64} {order : OrderRef}
    {e' : OrderBookEngine layout} (held : e.orders.Holds key order)
    (orders : e'.orders = e.orders.erase key)
    (books : e'.books = (e.setBook order.venue order.symbolU64
      ((e.books order.venue order.symbolU64).reduce order.side order.price order.qty)).books) :
    e'.Balanced := by
  refine balanced.lower ?_ ?_ ?_ books
  · rw [orders]
    exact balanced.sound.erase key
  · intro other left
    rw [orders, balanced.sound.holds_erase]
    exact fun kept => balanced.known other left kept.2
  · intro venue symbol side price
    simp only [restingQty, orders]
    exact balanced.sound.total_erase (fun _ order => order.restsAt venue symbol side price)
      held

/-- An order keeps part of its quantity, and so does the level. -/
theorem Balanced.shrink (balanced : e.Balanced) {key : UInt64} {order : OrderRef}
    {amount : UInt32} {e' : OrderBookEngine layout} (held : e.orders.Holds key order)
    (enough : amount ≤ order.qty)
    (orders : e'.orders = e.orders.assign key { order with qty := order.qty - amount })
    (books : e'.books = (e.setBook order.venue order.symbolU64
      ((e.books order.venue order.symbolU64).reduce order.side order.price amount)).books) :
    e'.Balanced := by
  refine balanced.lower ?_ ?_ ?_ books
  · rw [orders]
    exact balanced.sound.assign key _
  · intro other left
    rw [orders, balanced.sound.holds_assign held]
    split
    · rintro rfl
      exact balanced.known key order held
    · exact balanced.known other left
  · intro venue symbol side price
    have change := balanced.sound.total_assign (w := { order with qty := order.qty - amount })
      (fun _ order => order.restsAt venue symbol side price) held
    have part := order.restsAt_shrunk enough venue symbol side price
    simp only [restingQty, orders]
    omega

theorem Balanced.applyReduce (balanced : e.Balanced) (carries : e.Carries ev ev.orderId)
    (whole : e.DeletesWhole ev) : (e.applyReduce ev).Balanced := by
  cases found : e.orders.find? (orderKey ev.venue ev.orderId) with
  | none =>
    simp only [OrderBookEngine.applyReduce, found]
    exact balanced
  | some order =>
    have held := balanced.sound.find?_iff.mp found
    obtain ⟨venue, symbol⟩ := carries order found
    rw [applyReduce_some found]
    split
    · next gone =>
      have all : taken ev order = order.qty := by
        rcases gone with most | deleted
        · exact UInt32.le_antisymm (taken_le ev order) most
        · simp only [taken]
          split
          · rfl
          · next part =>
            rcases whole deleted order found with zero | covers
            · exact absurd (Or.inl zero) part
            · exact UInt32.le_antisymm (UInt32.not_lt.mp (fun more => part (Or.inr more))) covers
      refine balanced.leave held rfl ?_
      rw [all, venue, symbol]
    · refine balanced.shrink held (taken_le ev order) rfl ?_
      rw [venue, symbol]

theorem Balanced.withoutReferenced (balanced : e.Balanced)
    (carries : e.Carries ev ev.referenceOrderId) : (e.withoutReferenced ev).Balanced := by
  simp only [OrderBookEngine.withoutReferenced]
  cases found : e.orders.find? (orderKey ev.venue ev.referenceOrderId) with
  | none => exact balanced
  | some order =>
    obtain ⟨venue, symbol⟩ := carries order found
    refine balanced.leave (balanced.sound.find?_iff.mp found) rfl ?_
    rw [venue, symbol]

/-- After the old order has left, the table holds what it held under the other keys. -/
theorem holds_withoutReferenced (sound : e.orders.Sound) {key : UInt64} {order : OrderRef} :
    (e.withoutReferenced ev).orders.Holds key order ↔
      key ≠ orderKey ev.venue ev.referenceOrderId ∧ e.orders.Holds key order := by
  simp only [OrderBookEngine.withoutReferenced]
  cases found : e.orders.find? (orderKey ev.venue ev.referenceOrderId) with
  | none =>
    refine ⟨fun held => ⟨?_, held⟩, And.right⟩
    rintro rfl
    exact missing_of_find? sound found order held
  | some old => exact sound.holds_erase

theorem Balanced.applyReplace (small : layout.size ≤ 2 ^ 32) (balanced : e.Balanced)
    (enters : Enters ev) (carries : e.Carries ev ev.referenceOrderId)
    (fresh : ev.orderId = ev.referenceOrderId ∨
      e.orders.find? (orderKey ev.venue ev.orderId) = none)
    (unsaturated : (e.applyReplace ev).2 = false) : (e.applyReplace ev).1.Balanced := by
  rw [applyReplace_eq] at unsaturated ⊢
  refine (balanced.withoutReferenced carries).put small enters ?_ unsaturated
  intro order held
  obtain ⟨other, kept⟩ := (holds_withoutReferenced balanced.sound).mp held
  rcases fresh with reused | absent
  · exact other (by rw [reused])
  · exact missing_of_find? balanced.sound absent order kept

/-- Step lemma: a lawful event that deletes orders whole keeps the balance. -/
theorem Balanced.onEvent (small : layout.size ≤ 2 ^ 32) (balanced : e.Balanced)
    (lawful : e.Lawful ev) (whole : e.DeletesWhole ev) : (e.onEvent ev).1.Balanced := by
  have unsaturated := lawful.unsaturated
  simp only [OrderBookEngine.onEvent, apply] at unsaturated ⊢
  cases kind : ev.type with
  | add | addMpid =>
    obtain ⟨enters, absent⟩ := lawful.adds (by rw [kind]; rfl)
    simp only [kind] at unsaturated
    exact balanced.applyAdd small enters absent unsaturated
  | execute | executePrice | cancel | delete =>
    exact balanced.applyReduce (lawful.reduces (by rw [kind]; rfl)).2 whole
  | replace =>
    obtain ⟨enters, _, carries, fresh⟩ := lawful.replaces kind
    simp only [kind] at unsaturated
    exact balanced.applyReplace small enters carries fresh unsaturated
  | trade | crossTrade | imbalance | system | stockDirectory | unknown => exact balanced

/-- An order is part of what rests at its place. -/
theorem qty_le_resting {key : UInt64} {order : OrderRef} (held : e.orders.Holds key order) :
    order.qty.toNat ≤ e.restingQty order.venue order.symbolU64 order.side order.price := by
  rw [← order.restsAt_own]
  exact ProbeTable.weight_le_total
    (fun _ o => o.restsAt order.venue order.symbolU64 order.side order.price) held

/-- A reduction takes its amount off the level, whatever happens to the table. -/
theorem Balanced.reduced_level (balanced : e.Balanced) {venue : Venue} {symbol : UInt64}
    {side : Side} {price amount : UInt32} (known : side ≠ .unknown)
    (within : amount.toNat ≤ e.restingQty venue symbol side price) :
    LevelExact (((e.books venue symbol).reduce side price amount).levels side) price
      (e.restingQty venue symbol side price - amount.toNat) := by
  have lowered : ((e.books venue symbol).reduce side price amount).Displays fun otherSide otherPrice =>
      e.restingQty venue symbol otherSide otherPrice -
        if otherSide = side ∧ otherPrice = price then amount.toNat else 0 := by
    refine (balanced.books venue symbol).reduce fun otherSide otherPrice => ?_
    split
    · next here =>
      obtain ⟨rfl, rfl⟩ := here
      omega
    · rfl
  simpa using (lowered side known).levelExact price

/-- A Delete of part of a live order leaves the rest of it at the level. -/
theorem Balanced.not_conserved (balanced : e.Balanced) (lawful : e.Lawful ev)
    (partly : ¬ e.DeletesWhole ev) : ¬ (e.onEvent ev).1.Conserved := by
  simp only [DeletesWhole, Classical.not_imp, not_forall, not_or] at partly
  obtain ⟨deletes, order, found, nonzero, less⟩ := partly
  have more : ev.qty < order.qty := UInt32.not_le.mp less
  have part : taken ev order = ev.qty := by
    simp only [taken]
    rw [if_neg (not_or.mpr ⟨nonzero, fun excess => less (UInt32.le_of_lt excess)⟩)]
  have held := balanced.sound.find?_iff.mp found
  obtain ⟨venue, symbol⟩ := (lawful.reduces (by rw [deletes]; rfl)).2 order found
  have after : (e.onEvent ev).1 = e.applyReduce ev := by
    simp only [OrderBookEngine.onEvent, apply, deletes]
  rw [after, applyReduce_some found, if_pos (Or.inr deletes), part]
  intro conserved
  have known := balanced.known _ _ held
  have table := balanced.sound.total_erase
    (fun _ o => o.restsAt order.venue order.symbolU64 order.side order.price) held
  have within := qty_le_resting held
  have amounts := UInt32.lt_iff_toNat_lt.mp more
  have level := balanced.reduced_level known (amounts.le.trans within)
  have claimed := conserved order.venue order.symbolU64 order.side order.price known
  simp only [snapshot, setBook_book, venue, symbol, and_self, if_true] at claimed
  rw [venue, symbol] at level
  have same := claimed.unique level
  rw [OrderRef.restsAt_own] at table
  simp only [restingQty] at same within
  simp only [venue, symbol] at table within
  omega

theorem Balanced.run (small : layout.size ≤ 2 ^ 32) (balanced : e.Balanced)
    {events : List BookEvent} (lawful : Run.Along step Lawful e events)
    (whole : Run.Along step DeletesWhole e events) : (events.foldl step e).Balanced :=
  (lawful.and whole).invariant (fun _ _ balanced ok => balanced.onEvent small ok.1 ok.2) balanced

theorem Balanced.whole_of_conserved (small : layout.size ≤ 2 ^ 32) (balanced : e.Balanced)
    {events : List BookEvent} (lawful : Run.Along step Lawful e events)
    (conserved : ∀ n, ((events.take n).foldl step e).Conserved) :
    Run.Along step DeletesWhole e events := by
  induction events generalizing e with
  | nil => trivial
  | cons ev rest ih =>
    have first : e.DeletesWhole ev := by
      by_contra partly
      exact balanced.not_conserved lawful.1 partly (conserved 1)
    exact ⟨first, ih (balanced.onEvent small lawful.1 first) lawful.2 fun n => conserved (n + 1)⟩

/-- Levels and order table balance after every event exactly when no Delete of a live order
carries a part of its quantity. -/
theorem conserved_iff_deletes_whole (events : List BookEvent)
    (lawful : Run.Along step Lawful initial events) :
    (∀ n, ((events.take n).foldl step initial).Conserved) ↔
      Run.Along step DeletesWhole initial events := by
  have small : orderLayout.size ≤ 2 ^ 32 := by decide
  constructor
  · exact create_balanced.whole_of_conserved small lawful
  · intro whole n
    rw [← List.take_append_drop n events, Run.along_append] at lawful whole
    exact (create_balanced.run small lawful.1 whole.1).conserved

instance (e : OrderBookEngine layout) (ev : BookEvent) (id : UInt64) :
    Decidable (e.Carries ev id) :=
  inferInstanceAs (Decidable (∀ _ ∈ e.orders.find? _, _ ∧ _))

instance (e : OrderBookEngine layout) (ev : BookEvent) : Decidable (e.DeletesWhole ev) :=
  inferInstanceAs (Decidable (_ → ∀ _ ∈ e.orders.find? _, _ ∨ _))

theorem enters_iff : Enters ev ↔ ValidId ev.orderId ∧ ev.side ≠ .unknown ∧ 0 < ev.qty :=
  ⟨fun enters => ⟨enters.valid, enters.known, enters.positive⟩,
    fun ⟨valid, known, positive⟩ => ⟨valid, known, positive⟩⟩

theorem lawful_iff : e.Lawful ev ↔
    (ev.type.adds = true → (ValidId ev.orderId ∧ ev.side ≠ .unknown ∧ 0 < ev.qty) ∧
      e.orders.find? (orderKey ev.venue ev.orderId) = none) ∧
    (ev.type.reduces = true → ValidId ev.orderId ∧ e.Carries ev ev.orderId) ∧
    (ev.type = .replace → (ValidId ev.orderId ∧ ev.side ≠ .unknown ∧ 0 < ev.qty) ∧
      ValidId ev.referenceOrderId ∧ e.Carries ev ev.referenceOrderId ∧
      (ev.orderId = ev.referenceOrderId ∨
        e.orders.find? (orderKey ev.venue ev.orderId) = none)) ∧
    (e.onEvent ev).2.orderTableSaturated = false := by
  rw [← enters_iff]
  exact ⟨fun law => ⟨law.adds, law.reduces, law.replaces, law.unsaturated⟩,
    fun ⟨adds, reduces, replaces, unsaturated⟩ => ⟨adds, reduces, replaces, unsaturated⟩⟩

instance (e : OrderBookEngine layout) (ev : BookEvent) : Decidable (e.Lawful ev) :=
  decidable_of_iff' _ lawful_iff

def exampleAdd : BookEvent :=
  { type := .add, orderId := 1, side := .buy, price := 1500000, qty := 100 }

/-- An order that trades in part and is deleted whole. -/
def wholeStream : List BookEvent :=
  [exampleAdd, { type := .execute, orderId := 1, qty := 30 }, { type := .delete, orderId := 1 }]

theorem conserved_iff_deletes_whole_delete :
    Run.Along step Lawful initial wholeStream ∧
      ∀ n, ((wholeStream.take n).foldl step initial).Conserved := by
  have lawful : Run.Along step Lawful initial wholeStream := by decide +kernel
  exact ⟨lawful, (conserved_iff_deletes_whole _ lawful).mpr (by decide +kernel)⟩

/-- Delete 40 of an order of 100: the level still shows 60 and the order is gone. -/
theorem partial_delete_unbalanced : ¬ ∀ events : List BookEvent,
    Run.Along step Lawful initial events →
      ∀ n, ((events.take n).foldl step initial).Conserved := by
  intro claimed
  have lawful : Run.Along step Lawful initial
      [exampleAdd, { type := .delete, orderId := 1, qty := 40 }] := by decide +kernel
  have added : (step initial exampleAdd).Balanced :=
    create_balanced.onEvent (by decide) lawful.1 (by decide +kernel)
  exact added.not_conserved lawful.2.1 (by decide +kernel) (claimed _ lawful 2)

end OrderBookEngine
end FeedHandler
