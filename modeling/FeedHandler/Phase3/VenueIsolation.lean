import FeedHandler.Lib.Run
import FeedHandler.Phase3.OrderBookSpec

/-! Isolation of the venues in the reference book. All venues share one order table, and
the key of an order is its id with the venue exclusive-ored into the top byte: two venues
meet under one key as soon as an id uses that byte. The venues are isolated exactly as
long as no event meets an order of another venue under its keys. -/
namespace FeedHandler

namespace BookSpec

variable {s d : BookSpec} {ev : BookEvent} {key : UInt64} {ahead : UInt64}
  {old : Option OrderRef} {order : OrderRef} {v : Venue}

/-- The ids under which an event looks up or stores an order. -/
def touchedIds (ev : BookEvent) : List UInt64 :=
  match ev.type with
  | .add | .addMpid => if ev.orderId = 0 then [] else [ev.orderId]
  | .execute | .executePrice | .cancel | .delete => [ev.orderId]
  | .replace =>
    if ev.orderId = 0 then [ev.referenceOrderId] else [ev.referenceOrderId, ev.orderId]
  | _ => []

def touchedKeys (ev : BookEvent) : List UInt64 :=
  (touchedIds ev).map (OrderBookEngine.orderKey ev.venue)

/-- Under the keys of the event there are only orders of its own venue. -/
def OwnKeys (s : BookSpec) (ev : BookEvent) : Prop :=
  ∀ key ∈ touchedKeys ev, ∀ order, s.orders key = some order → order.venue = ev.venue

/-- The orders and the books of the other venues stay as they are. -/
structure Unaffecting (s : BookSpec) (ev : BookEvent) : Prop where
  orders : ∀ key order, order.venue ≠ ev.venue →
    ((s.step ev).orders key = some order ↔ s.orders key = some order)
  books : ∀ venue, venue ≠ ev.venue → (s.step ev).books venue = s.books venue

section Keys

variable {orders others : UInt64 → Option OrderRef}

theorem ordersAfter_untouched (untouched : key ∉ touchedKeys ev) :
    ordersAfter orders ev ahead key = orders key := by
  simp only [ordersAfter, enter]
  cases kind : ev.type <;> simp only [touchedKeys, touchedIds, kind] at untouched
  case add | addMpid | replace =>
    by_cases zero : ev.orderId = 0 <;> simp_all
  case execute | executePrice | cancel | delete => simp_all
  all_goals rfl

/-- What is under a key after an event depends only on what was there before. -/
theorem ordersAfter_local (same : orders key = others key) :
    ordersAfter orders ev ahead key = ordersAfter others ev ahead key := by
  simp only [ordersAfter, enter, named]
  cases ev.type
  case add | addMpid | replace =>
    by_cases zero : ev.orderId = 0 <;> simp [zero, Function.update_apply, same]
  case execute | executePrice | cancel | delete =>
    by_cases here : key = OrderBookEngine.orderKey ev.venue ev.orderId
    · subst here
      simp [same]
    · simp [here, same]
  all_goals exact same

theorem remaining_venue {left : OrderRef} (kept : remaining ev order = some left) :
    left.venue = order.venue := by
  simp only [remaining] at kept
  split at kept
  · cases kept
  · cases kept
    rfl

/-- A reduction always changes the order. -/
theorem remaining_ne : remaining ev order ≠ some order := by
  simp only [remaining]
  split
  · exact (Option.some_ne_none _).symm
  · next part =>
    have some : ¬ (ev.qty = 0 ∨ ev.qty > order.qty) := by
      intro all
      refine part (Or.inl ?_)
      rw [taken, if_pos all]
      exact UInt32.le_refl _
    rw [taken, if_neg some]
    intro same
    have less := congrArg (fun left => left.map (fun o => o.qty.toNat)) same
    have positive : ev.qty.toNat ≠ 0 := fun zero => some (Or.inl (UInt32.toNat_inj.mp zero))
    have enough : ev.qty ≤ order.qty := UInt32.not_lt.mp (fun more => some (Or.inr more))
    simp only [Option.map_some, Option.some.injEq, UInt32.toNat_sub_of_le _ _ enough] at less
    have within := UInt32.le_iff_toNat_le.mp enough
    omega

theorem enter_own (own : ∀ order, orders key = some order → order.venue = ev.venue)
    (after : enter orders ev ahead key = some order) : order.venue = ev.venue := by
  simp only [enter] at after
  split at after
  · exact own order after
  · rw [Function.update_apply] at after
    split at after
    · cases after
      rfl
    · exact own order after

/-- An event brings and leaves its own venue's orders under a key of its own venue. -/
theorem ordersAfter_own (own : ∀ order, orders key = some order → order.venue = ev.venue)
    (after : ordersAfter orders ev ahead key = some order) : order.venue = ev.venue := by
  simp only [ordersAfter, named] at after
  cases kind : ev.type <;> simp only [kind] at after
  case add | addMpid => exact enter_own own after
  case execute | executePrice | cancel | delete =>
    rw [Function.update_apply] at after
    split at after
    · next here =>
      subst here
      obtain ⟨old, found, kept⟩ := Option.bind_eq_some_iff.mp after
      rw [remaining_venue kept]
      exact own old found
    · exact own order after
  case replace =>
    refine enter_own ?_ after
    intro old found
    rw [Function.update_apply] at found
    split at found
    · cases found
    · exact own old found
  all_goals exact own order after

/-- A foreign order that is met under a key does not survive the event as it was. -/
theorem ordersAfter_foreign (touched : key ∈ touchedKeys ev) (foreign : order.venue ≠ ev.venue)
    (before : orders key = some order) : ordersAfter orders ev ahead key ≠ some order := by
  have brought : ∀ ahead, broughtOrder ev ahead ≠ order := by
    rintro _ rfl
    exact foreign rfl
  simp only [ordersAfter, enter, named]
  cases kind : ev.type <;> simp only [touchedKeys, touchedIds, kind] at touched
  case add | addMpid | replace =>
    by_cases zero : ev.orderId = 0 <;> simp_all [Function.update_apply]
    all_goals grind
  case execute | executePrice | cancel | delete =>
    simp only [List.map_cons, List.map_nil, List.mem_singleton] at touched
    subst touched
    simp only [Function.update_self, before, Option.bind_some]
    exact remaining_ne
  all_goals cases touched

end Keys

theorem step_books_other (s : BookSpec) {venue : Venue} (other : venue ≠ ev.venue) :
    (s.step ev).books venue = s.books venue := by
  simp only [step]
  rw [Function.update_of_ne other]

/-- An event leaves the other venues alone exactly when it meets only its own orders. -/
theorem unaffecting_iff : s.Unaffecting ev ↔ s.OwnKeys ev := by
  constructor
  · intro unaffecting key touched order found
    by_contra foreign
    exact ordersAfter_foreign touched foreign found ((unaffecting.orders key order foreign).mpr found)
  · intro own
    refine ⟨?_, fun venue other => s.step_books_other other⟩
    intro key order foreign
    by_cases touched : key ∈ touchedKeys ev
    · constructor
      · intro after
        exact absurd (ordersAfter_own (own key touched) after) foreign
      · intro before
        exact absurd (own key touched order before) foreign
    · simp only [step]
      rw [ordersAfter_untouched touched]

/-- `d` is the part of `s` that belongs to one venue. -/
structure PartOf (v : Venue) (d s : BookSpec) : Prop where
  orders : ∀ key, d.orders key = (s.orders key).filter (fun order => order.venue = v)
  books : d.books v = s.books v

/-- Another venue's event does not show in the part. -/
theorem PartOf.other (part : PartOf v d s) (foreign : ev.venue ≠ v) (own : s.OwnKeys ev) :
    PartOf v d (s.step ev) := by
  have unaffecting := unaffecting_iff.mpr own
  refine ⟨?_, part.books.trans (unaffecting.books v foreign.symm).symm⟩
  intro key
  rw [part.orders]
  apply Option.ext
  intro order
  simp only [Option.filter_eq_some_iff, decide_eq_true_eq]
  constructor
  · rintro ⟨found, rfl⟩
    exact ⟨(unaffecting.orders key order foreign.symm).mpr found, rfl⟩
  · rintro ⟨found, rfl⟩
    exact ⟨(unaffecting.orders key order foreign.symm).mp found, rfl⟩

theorem bookAfter_congr {orders others : UInt64 → Option OrderRef} (book : VenueBook)
    (same : ∀ key ∈ touchedKeys ev, orders key = others key) :
    bookAfter orders ev book = bookAfter others ev book := by
  simp only [bookAfter, withoutReferenced, named, referenced]
  cases kind : ev.type <;> simp only [touchedKeys, touchedIds, kind] at same
  case execute | executePrice | cancel | delete =>
    rw [same _ (List.mem_singleton.mpr rfl)]
  case replace =>
    rw [same (OrderBookEngine.orderKey ev.venue ev.referenceOrderId) (by split <;> simp)]
  all_goals rfl

theorem filter_own (own : ∀ order, old = some order → order.venue = v) :
    old.filter (fun order => order.venue = v) = old := by
  cases old with
  | none => rfl
  | some order => exact Option.filter_some_pos (decide_eq_true (own order rfl))

/-- The venue's own event does to the part what it does to the whole. -/
theorem PartOf.own (part : PartOf ev.venue d s) (own : s.OwnKeys ev) :
    PartOf ev.venue (d.step ev) (s.step ev) := by
  have book : d.ownBook ev = s.ownBook ev := congrFun part.books _
  have met : ∀ key ∈ touchedKeys ev, d.orders key = s.orders key := by
    intro key touched
    rw [part.orders, filter_own (own key touched)]
  constructor
  · intro key
    simp only [step, book]
    by_cases touched : key ∈ touchedKeys ev
    · rw [ordersAfter_local (met key touched), filter_own]
      intro order after
      exact ordersAfter_own (own key touched) after
    · rw [ordersAfter_untouched touched, ordersAfter_untouched touched, part.orders]
  · simp only [step, book, Function.update_self, part.books]
    rw [bookAfter_congr _ met]

end BookSpec

namespace OrderBookEngine

variable {layout : ProbeLayout UInt64} {e d : OrderBookEngine layout} {ev : BookEvent}

/-- Under the keys of the event the table has only orders of its own venue. -/
def OwnKeys (e : OrderBookEngine layout) (ev : BookEvent) : Prop :=
  ∀ key ∈ BookSpec.touchedKeys ev, ∀ order ∈ e.orders.find? key, order.venue = ev.venue

/-- The orders and the levels of the other venues stay as they are. -/
structure Unaffecting (e : OrderBookEngine layout) (ev : BookEvent) : Prop where
  orders : ∀ key order, order.venue ≠ ev.venue →
    ((e.step ev).orders.find? key = some order ↔ e.orders.find? key = some order)
  books : ∀ venue, venue ≠ ev.venue → (e.step ev).books venue = e.books venue

/-- The events of one venue. -/
def substream (v : Venue) (events : List BookEvent) : List BookEvent :=
  events.filter (fun ev => ev.venue = v)

/-- The venues do not see each other: no event affects another venue, and every venue's books
are those of its own events alone. -/
structure Isolated (e : OrderBookEngine layout) (events : List BookEvent) : Prop where
  unaffecting : Run.Along step Unaffecting e events
  snapshots : ∀ v symbol, (events.foldl step e).snapshot v symbol =
    ((substream v events).foldl step e).snapshot v symbol

theorem unaffecting_iff (sound : e.orders.Sound) (unsaturated : e.Unsaturated ev) :
    e.Unaffecting ev ↔ e.OwnKeys ev := by
  obtain ⟨_, refined, _⟩ := step_spec sound unsaturated
  refine Iff.trans ?_ (BookSpec.unaffecting_iff (s := e.spec))
  constructor
  · intro unaffecting
    constructor
    · rw [← refined]
      exact unaffecting.orders
    · rw [← refined]
      exact unaffecting.books
  · intro unaffecting
    constructor
    · have orders := unaffecting.orders
      rwa [← refined] at orders
    · have books := unaffecting.books
      rwa [← refined] at books

theorem along_unaffecting_iff (sound : e.orders.Sound) {events : List BookEvent}
    (unsaturated : Run.Along step Unsaturated e events) :
    Run.Along step Unaffecting e events ↔ Run.Along step OwnKeys e events := by
  induction events generalizing e with
  | nil => exact Iff.rfl
  | cons ev rest ih =>
    have kept := (step_spec sound unsaturated.1).1
    exact and_congr (unaffecting_iff sound unsaturated.1) (ih kept unsaturated.2)

/-- The run of a venue's own events keeps being the venue's part of the whole run. -/
theorem run_partOf {v : Venue} (sound : e.orders.Sound) (soundPart : d.orders.Sound)
    (part : BookSpec.PartOf v d.spec e.spec) {events : List BookEvent}
    (unsaturated : Run.Along step Unsaturated e events)
    (own : Run.Along step OwnKeys e events)
    (fits : Run.Along step Unsaturated d (substream v events)) :
    BookSpec.PartOf v ((substream v events).foldl step d).spec (events.foldl step e).spec := by
  induction events generalizing e d with
  | nil => exact part
  | cons ev rest ih =>
    obtain ⟨kept, refined, _⟩ := step_spec sound unsaturated.1
    by_cases mine : ev.venue = v
    · subst mine
      have first : substream ev.venue (ev :: rest) = ev :: substream ev.venue rest :=
        List.filter_cons_of_pos (decide_eq_true rfl)
      rw [first] at fits ⊢
      obtain ⟨keptPart, refinedPart, _⟩ := step_spec soundPart fits.1
      refine ih kept keptPart ?_ unsaturated.2 own.2 fits.2
      rw [refined, refinedPart]
      exact part.own own.1
    · have skipped : substream v (ev :: rest) = substream v rest :=
        List.filter_cons_of_neg (fun same => mine (of_decide_eq_true same))
      rw [skipped] at fits ⊢
      refine ih kept soundPart ?_ unsaturated.2 own.2 fits
      rw [refined]
      exact part.other mine own.1

theorem create_partOf (v : Venue) :
    BookSpec.PartOf v (create layout).spec (create layout).spec := by
  rw [create_spec]
  exact ⟨fun _ => rfl, rfl⟩

/-- The venues are isolated if no event meets another venue's order under one of its keys and
the events of every venue fit into a table of their own too. If they are isolated, no event
meets another venue's order. -/
theorem isolated_of_own_keys (events : List BookEvent)
    (unsaturated : Run.Along step Unsaturated initial events) :
    (Run.Along step OwnKeys initial events ∧
        (∀ v, Run.Along step Unsaturated initial (substream v events)) →
      initial.Isolated events) ∧
    (initial.Isolated events → Run.Along step OwnKeys initial events) := by
  have sound : initial.orders.Sound := ProbeTable.create_sound
  have frame := along_unaffecting_iff sound unsaturated
  refine ⟨?_, fun isolated => frame.mp isolated.unaffecting⟩
  rintro ⟨own, fits⟩
  refine ⟨frame.mpr own, fun v symbol => ?_⟩
  have part := run_partOf sound sound (create_partOf v) unsaturated own (fits v)
  exact (congrFun part.books symbol).symm

instance (e : OrderBookEngine layout) (ev : BookEvent) : Decidable (e.OwnKeys ev) :=
  List.decidableBAll _ _

/-- The same id on two venues. -/
def sameIdStream : List BookEvent :=
  [{ venue := .iex, type := .add, orderId := 5, side := .buy, price := 1000000, qty := 10 },
    { venue := .cboe, type := .add, orderId := 5, side := .buy, price := 1000000, qty := 20 },
    { venue := .iex, type := .delete, orderId := 5 }]

theorem isolated_of_own_keys_same_id :
    Run.Along step Unsaturated initial sameIdStream ∧ initial.Isolated sameIdStream := by
  have unsaturated : Run.Along step Unsaturated initial sameIdStream := by decide +kernel
  have own : Run.Along step OwnKeys initial sameIdStream := by decide +kernel
  refine ⟨unsaturated, (isolated_of_own_keys _ unsaturated).1 ⟨own, ?_⟩⟩
  intro v
  cases v <;> decide +kernel

/-- An order of one venue, a Delete of another venue that meets it, and its own Delete. -/
def collidingStream : List BookEvent :=
  [{ venue := .iex, type := .add, orderId := 5, side := .buy, price := 1000000, qty := 10 },
    { venue := .cboe, type := .delete, orderId := 0x0300000000000005 },
    { venue := .iex, type := .delete, orderId := 5 }]

/-- The second venue takes the order, so its own Delete no longer empties the level. -/
theorem colliding_delete_not_isolated : ¬ ∀ events : List BookEvent,
    Run.Along step Unsaturated initial events → initial.Isolated events := by
  intro isolated
  have unsaturated : Run.Along step Unsaturated initial collidingStream := by decide +kernel
  have same := (isolated collidingStream unsaturated).snapshots .iex 0
  revert same
  decide +kernel

end OrderBookEngine
end FeedHandler
