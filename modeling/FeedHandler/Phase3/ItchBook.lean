import FeedHandler.Lib.Run
import FeedHandler.Phase3.OrderLife
import FeedHandler.Phase3.PriceLevels
import Mathlib.Algebra.Group.Action.Defs
import Mathlib.Algebra.Order.BigOperators.Group.List

/-! From the ITCH feed to the book. The engine runs on what the parser makes of each
message, beside the order life the messages stand for. Executions, cancels and deletes
arrive without a symbol, so they change the book of the blank symbol, and a replacement
enters without a side. -/
namespace FeedHandler

open OrderLife

structure ItchPacket where
  message : ItchMessage
  sequence : UInt64 := 0
  ingestTsNs : UInt64 := 0

/-- The engine behind the parser, with the live orders of the messages so far. -/
structure ItchFeed (layout : ProbeLayout UInt64) where
  live : List LiveOrder := []
  engine : OrderBookEngine layout
  stats : ParseStats := {}

namespace ItchFeed

variable {layout : ProbeLayout UInt64}

def create (layout : ProbeLayout UInt64) : ItchFeed layout where
  engine := .create layout

def parsed (s : ItchFeed layout) (p : ItchPacket) : Option BookEvent × ParseStats :=
  Itch50.parseMessage p.message.encode p.sequence p.ingestTsNs s.stats

def step (s : ItchFeed layout) (p : ItchPacket) : ItchFeed layout where
  live := OrderLife.step s.live p.message.action
  engine :=
    match (s.parsed p).1 with
    | none => s.engine
    | some ev => (s.engine.onEvent ev).1
  stats := (s.parsed p).2

/-- A valid order life whose orders the table has room for. -/
def Admissible (s : ItchFeed layout) (p : ItchPacket) : Prop :=
  Valid s.live p.message.action ∧
    ∀ ev, (s.parsed p).1 = some ev → (s.engine.onEvent ev).2.orderTableSaturated = false

/-- Level by level, the snapshot is the sum of the live orders. -/
def BookExact (s : ItchFeed layout) : Prop :=
  ∀ symbol side price, side ≠ Side.unknown →
    LevelExact ((s.engine.snapshot .nasdaq symbol.asU64).levels side) price
      (restingShares s.live symbol side price)

/-- The messages the engine applies to the right book: new orders, and shares taken
from, or the removal of, an order of the blank symbol. -/
def Addressed (live : List LiveOrder) : OrderAction → Prop
  | .enter _ => True
  | .take orderRef shares =>
    0 < shares ∧ ∀ order ∈ live, order.orderRef = orderRef → order.symbol = {}
  | .leave orderRef => ∀ order ∈ live, order.orderRef = orderRef → order.symbol = {}
  | .replace _ _ _ _ => False

instance (live : List LiveOrder) : (action : OrderAction) → Decidable (Addressed live action)
  | .enter _ => inferInstanceAs (Decidable True)
  | .take _ _ => inferInstanceAs (Decidable (_ ∧ ∀ _ ∈ live, _ → _))
  | .leave _ => inferInstanceAs (Decidable (∀ _ ∈ live, _ → _))
  | .replace _ _ _ _ => inferInstanceAs (Decidable False)

end ItchFeed

/-- The table entry of a live order. -/
def LiveOrder.entry (order : LiveOrder) (queueAhead : UInt64) : OrderRef where
  venue := .nasdaq
  symbolU64 := order.symbol.asU64
  side := order.side
  price := order.price
  qty := order.remaining
  queueAhead := queueAhead

namespace OrderBookEngine

variable {layout : ProbeLayout UInt64} {e : OrderBookEngine layout} {live : List LiveOrder}
  {order : LiveOrder} {ev : BookEvent}

@[simp] theorem orderKey_nasdaq (orderId : UInt64) : orderKey .nasdaq orderId = orderId := by
  simp [orderKey, Venue.code]

/-- Books and order table of the engine are those of the live orders. -/
structure Tracks (e : OrderBookEngine layout) (live : List LiveOrder) : Prop where
  sound : e.orders.Sound
  entry : ∀ order ∈ live, ∃ ahead, e.orders.Holds order.orderRef (order.entry ahead)
  named : ∀ key value, e.orders.Holds key value → ∃ order ∈ live, order.orderRef = key
  count : e.orders.count = live.length
  fits : live.length ≤ layout.size / 2 + 1
  books : ∀ symbol, (e.books .nasdaq symbol.asU64).Displays (restingShares live symbol)

theorem create_tracks : (create layout).Tracks [] where
  sound := ProbeTable.create_sound
  entry := by simp
  named := by
    rintro key value ⟨i, held⟩
    cases held
  count := rfl
  fits := Nat.zero_le _
  books := fun _ => VenueBook.empty_displays

/-- No total of the live orders leaves 64 bits. -/
theorem resting_small (small : layout.size ≤ 2 ^ 32) (fits : live.length ≤ layout.size / 2 + 1)
    (symbol : SymbolKey) (side : Side) (price : UInt32) :
    restingShares live symbol side price < wordSize := by
  have each : ∀ n ∈ live.map (sharesAt symbol side price), n ≤ 2 ^ 32 - 1 := by
    intro n member
    obtain ⟨order, _, rfl⟩ := List.mem_map.mp member
    simp only [sharesAt]
    have bound := order.remaining.toNat_lt
    split <;> omega
  have total := List.sum_le_card_nsmul _ _ each
  rw [List.length_map, smul_eq_mul] at total
  have capacity : live.length * (2 ^ 32 - 1) ≤ (2 ^ 31 + 1) * (2 ^ 32 - 1) :=
    Nat.mul_le_mul_right _ (by omega)
  simp only [restingShares, wordSize]
  omega

/-- The event says what the order of an add message is. -/
structure Brings (ev : BookEvent) (order : LiveOrder) : Prop where
  venue : ev.venue = .nasdaq
  ref : ev.orderId = order.orderRef
  symbol : ev.symbol = order.symbol
  side : ev.side = order.side
  price : ev.price = order.price
  shares : ev.qty = order.remaining

theorem applyAdd_eq (brings : Brings ev order) (nonzero : order.orderRef ≠ 0) :
    ∃ ahead, (e.applyAdd ev).1 =
        { e.setBook .nasdaq order.symbol.asU64
            ((e.books .nasdaq order.symbol.asU64).add order.side order.price order.remaining) with
          orders := (e.orders.put order.orderRef (order.entry ahead)).1 } ∧
      (e.applyAdd ev).2.1 = !(e.orders.put order.orderRef (order.entry ahead)).2 := by
  simp only [applyAdd, putOrder, brings.venue, brings.ref, brings.symbol, brings.side,
    brings.price, brings.shares, if_neg nonzero, orderKey_nasdaq]
  exact ⟨_, rfl, rfl⟩

theorem resting_cons (symbol : SymbolKey) (side : Side) (price : UInt32) :
    restingShares (order :: live) symbol side price =
      restingShares live symbol side price + sharesAt symbol side price order := by
  simp [restingShares, Nat.add_comm]

/-- A fresh order the table accepts. -/
theorem Tracks.enter (small : layout.size ≤ 2 ^ 32) (tracks : e.Tracks live)
    (known : order.side ≠ .unknown) (positive : 0 < order.remaining)
    (fresh : Fresh live order.orderRef) (brings : Brings ev order)
    (accepted : (e.applyAdd ev).2.1 = false) : (e.applyAdd ev).1.Tracks (order :: live) := by
  obtain ⟨nonzero, _, unseen⟩ := fresh
  obtain ⟨ahead, result, flag⟩ := applyAdd_eq (e := e) brings nonzero
  rw [flag, Bool.not_eq_false'] at accepted
  have stored := tracks.sound.put accepted
  have missing : ∀ value, ¬ e.orders.Holds order.orderRef value := by
    intro value held
    obtain ⟨other, member, same⟩ := tracks.named _ _ held
    exact unseen other member same
  have counted := stored.count missing
  have fits : (order :: live).length ≤ layout.size / 2 + 1 := by
    have room := stored.room
    rw [tracks.count] at room
    simpa using room
  rw [result]
  refine ⟨stored.sound, ?_, ?_, ?_, fits, ?_⟩
  · intro other member
    rcases List.mem_cons.mp member with rfl | before
    · exact ⟨ahead, (stored.holds _ _).mpr (by simp)⟩
    · obtain ⟨earlier, held⟩ := tracks.entry other before
      refine ⟨earlier, (stored.holds _ _).mpr ?_⟩
      rwa [if_neg (unseen other before)]
  · intro key value held
    have origin := (stored.holds _ _).mp held
    split at origin
    · next same => exact ⟨order, by simp, same.symm⟩
    · obtain ⟨other, member, same⟩ := tracks.named _ _ origin
      exact ⟨other, by simp [member], same⟩
  · rw [List.length_cons, ← tracks.count]
    exact counted
  · intro symbol
    have bound := resting_small small fits symbol
    simp only [setBook_book, true_and, SymbolKey.asU64_inj]
    split
    · next same =>
      subst same
      refine (tracks.books order.symbol).add known positive bound ?_
      intro side price
      rw [resting_cons, sharesAt]
      simp [eq_comm]
    · next distinct =>
      have unchanged : restingShares (order :: live) symbol = restingShares live symbol := by
        funext side price
        rw [resting_cons, sharesAt, if_neg (fun own => distinct own.1.symm), Nat.add_zero]
      rw [unchanged]
      exact tracks.books symbol

/-- The event takes `amount` shares of the order, in the book of the order's symbol. -/
structure Takes (ev : BookEvent) (order : LiveOrder) (amount : UInt32) : Prop where
  venue : ev.venue = .nasdaq
  ref : ev.orderId = order.orderRef
  symbol : ev.symbol = order.symbol
  chosen : (if ev.qty = 0 ∨ ev.qty > order.remaining then order.remaining else ev.qty) = amount
  whole : ev.type = .delete → amount = order.remaining

variable {amount : UInt32} {change : LiveOrder → Option LiveOrder}

theorem Takes.amount_le (takes : Takes ev order amount) : amount ≤ order.remaining := by
  have chosen := takes.chosen
  split at chosen
  · exact chosen ▸ UInt32.le_refl _
  · next part => exact chosen ▸ UInt32.not_lt.mp (fun more => part (Or.inr more))

/-- The order table after shares are taken from one order. -/
def takeOrder (orders : ProbeTable layout OrderRef) (order : LiveOrder) (ahead : UInt64)
    (amount : UInt32) : ProbeTable layout OrderRef :=
  match order.without amount with
  | none => orders.erase order.orderRef
  | some left => orders.assign order.orderRef (left.entry ahead)

theorem applyReduce_eq (tracks : e.Tracks live) (takes : Takes ev order amount) {ahead : UInt64}
    (held : e.orders.Holds order.orderRef (order.entry ahead)) :
    e.applyReduce ev =
      { e.setBook .nasdaq order.symbol.asU64
          ((e.books .nasdaq order.symbol.asU64).reduce order.side order.price amount) with
        orders := takeOrder e.orders order ahead amount } := by
  have found := tracks.sound.find?_iff.mpr held
  have chosen : (if ev.qty = 0 ∨ ev.qty > (order.entry ahead).qty then (order.entry ahead).qty
      else ev.qty) = amount := takes.chosen
  simp only [applyReduce, takes.venue, takes.ref, takes.symbol, orderKey_nasdaq, found, chosen]
  simp only [takeOrder, LiveOrder.without]
  by_cases more : amount < order.remaining
  · have unfinished : ¬ (amount ≥ (order.entry ahead).qty ∨ ev.type = .delete) := by
      rintro (done | gone)
      · exact UInt32.not_lt.mpr done more
      · exact UInt32.lt_irrefl _ (takes.whole gone ▸ more)
    rw [if_neg unfinished, if_pos more]
    rfl
  · have finished : amount ≥ (order.entry ahead).qty ∨ ev.type = .delete :=
      Or.inl (UInt32.not_lt.mp more)
    rw [if_pos finished, if_neg more]
    rfl

/-- What the table holds after shares are taken from an order it holds. -/
theorem takeOrder_spec {orders : ProbeTable layout OrderRef} (sound : orders.Sound)
    {ahead : UInt64} (held : orders.Holds order.orderRef (order.entry ahead)) (amount : UInt32) :
    (takeOrder orders order ahead amount).Sound ∧
      ∀ key value, (takeOrder orders order ahead amount).Holds key value ↔
        if key = order.orderRef then (order.without amount).map (·.entry ahead) = some value
        else orders.Holds key value := by
  simp only [takeOrder]
  cases order.without amount with
  | none =>
    refine ⟨sound.erase _, fun key value => ?_⟩
    rw [sound.holds_erase]
    split <;> simp_all
  | some left =>
    refine ⟨sound.assign _ _, fun key value => ?_⟩
    rw [sound.holds_assign held]
    simp [eq_comm]

theorem count_takeOrder {orders : ProbeTable layout OrderRef} (sound : orders.Sound)
    {ahead : UInt64} (held : orders.Holds order.orderRef (order.entry ahead))
    (counted : orders.count = live.length) (distinct : (live.map (·.orderRef)).Nodup)
    (member : order ∈ live) (amount : UInt32) :
    (takeOrder orders order ahead amount).count =
      (alter live order.orderRef (·.without amount)).length := by
  have total := sum_alter (fun _ => 1) (·.without amount) distinct member
  simp only [List.map_const', List.sum_replicate, smul_eq_mul, mul_one] at total
  simp only [takeOrder]
  cases left : order.without amount with
  | none =>
    simp only [left, Option.map_none, Option.getD_none] at total ⊢
    rw [sound.count_erase held]
    omega
  | some rest =>
    simp only [left, Option.map_some, Option.getD_some] at total ⊢
    rw [ProbeTable.count_assign]
    omega

/-- Taking shares subtracts them where the order counts. -/
theorem resting_take (formed : WellFormed live) (member : order ∈ live)
    (enough : amount ≤ order.remaining) (symbol : SymbolKey) (side : Side) (price : UInt32) :
    restingShares (alter live order.orderRef (·.without amount)) symbol side price +
        (if order.symbol = symbol ∧ order.side = side ∧ order.price = price then amount.toNat
          else 0) =
      restingShares live symbol side price := by
  have total := sum_alter (sharesAt symbol side price) (·.without amount) formed.distinct member
  have within := UInt32.le_iff_toNat_le.mp enough
  simp only [restingShares]
  cases left : order.without amount with
  | none =>
    have gone : ¬ amount < order.remaining := by
      intro more
      simp [LiveOrder.without, more] at left
    have all := UInt32.le_iff_toNat_le.mp (UInt32.not_lt.mp gone)
    simp only [left, Option.map_none, Option.getD_none, sharesAt] at total
    split at total <;> split <;> first | omega | contradiction
  | some rest =>
    obtain ⟨more, rfl⟩ := without_eq_some left
    have difference := UInt32.toNat_sub_of_le _ _ enough
    simp only [left, Option.map_some, Option.getD_some, sharesAt] at total
    split at total <;> split <;> first | omega | contradiction

theorem Tracks.take (formed : WellFormed live) (tracks : e.Tracks live) (member : order ∈ live)
    (takes : Takes ev order amount) :
    (e.applyReduce ev).Tracks (alter live order.orderRef (·.without amount)) := by
  obtain ⟨ahead, held⟩ := tracks.entry order member
  obtain ⟨sound, holds⟩ := takeOrder_spec tracks.sound held amount
  have shorter : (alter live order.orderRef (·.without amount)).length ≤ live.length :=
    List.length_filterMap_le _ _
  rw [applyReduce_eq tracks takes held]
  refine ⟨sound, ?_, ?_, ?_, shorter.trans tracks.fits, ?_⟩
  · intro after listed
    rcases mem_alter.mp listed with ⟨before, other⟩ | ⟨before, present, same, result⟩
    · obtain ⟨earlier, kept⟩ := tracks.entry after before
      exact ⟨earlier, (holds _ _).mpr (by rwa [if_neg other])⟩
    · obtain rfl := formed.eq_of_ref present member same
      have named : after.orderRef = before.orderRef := by rw [(without_eq_some result).2]
      exact ⟨ahead, (holds _ _).mpr (by rw [if_pos named, result, Option.map_some])⟩
  · intro key value kept
    have origin := (holds _ _).mp kept
    split at origin
    · next same =>
      obtain ⟨after, result, _⟩ := Option.map_eq_some_iff.mp origin
      refine ⟨after, mem_alter.mpr (Or.inr ⟨order, member, rfl, result⟩), ?_⟩
      rw [same, (without_eq_some result).2]
    · next other =>
      obtain ⟨before, present, same⟩ := tracks.named _ _ origin
      exact ⟨before, mem_alter.mpr (Or.inl ⟨present, same.trans_ne other⟩), same⟩
  · exact count_takeOrder tracks.sound held tracks.count formed.distinct member amount
  · intro symbol
    have taken := resting_take formed member takes.amount_le symbol
    simp only [setBook_book, true_and, SymbolKey.asU64_inj]
    split
    · next same =>
      subst same
      refine (tracks.books order.symbol).reduce ?_
      intro side price
      rw [← taken side price]
      simp [eq_comm]
    · next distinct =>
      have unchanged : restingShares (alter live order.orderRef (·.without amount)) symbol =
          restingShares live symbol := by
        funext side price
        rw [← taken side price, if_neg (fun own => distinct own.1.symm), Nat.add_zero]
      rw [unchanged]
      exact tracks.books symbol

theorem takes_part (enough : amount ≤ order.remaining)
    (positive : 0 < amount) (blank : order.symbol = {}) (venue : ev.venue = .nasdaq)
    (ref : ev.orderId = order.orderRef) (symbol : ev.symbol = {}) (qty : ev.qty = amount)
    (kept : ev.type ≠ .delete) : Takes ev order amount where
  venue := venue
  ref := ref
  symbol := symbol.trans blank.symm
  chosen := by
    have part : ¬ (ev.qty = 0 ∨ ev.qty > order.remaining) := by
      rintro (none | more)
      · rw [← qty, none] at positive
        exact UInt32.lt_irrefl _ positive
      · exact UInt32.not_lt.mpr enough (qty ▸ more)
    rw [if_neg part, qty]
  whole := fun gone => absurd gone kept

end OrderBookEngine

namespace ItchFeed

open OrderBookEngine

variable {layout : ProbeLayout UInt64} {s : ItchFeed layout} {p : ItchPacket}

theorem parsed_eq (s : ItchFeed layout) (p : ItchPacket) :
    s.parsed p = (some (p.message.event p.sequence p.ingestTsNs),
      s.stats.parsed p.message.type) :=
  Itch50.parseMessage_encode _ _ _ _

@[simp] theorem step_live (s : ItchFeed layout) (p : ItchPacket) :
    (s.step p).live = OrderLife.step s.live p.message.action := rfl

theorem step_engine (s : ItchFeed layout) (p : ItchPacket) : (s.step p).engine =
    (s.engine.apply (p.message.event p.sequence p.ingestTsNs)).1 := by
  simp only [step]
  rw [parsed_eq]
  rfl

theorem Admissible.accepted (admissible : s.Admissible p) :
    (s.engine.apply (p.message.event p.sequence p.ingestTsNs)).2.1 = false :=
  admissible.2 _ (by rw [parsed_eq])

theorem admissible_iff : s.Admissible p ↔ Valid s.live p.message.action ∧
    (s.engine.apply (p.message.event p.sequence p.ingestTsNs)).2.1 = false := by
  refine ⟨fun ok => ⟨ok.1, ok.accepted⟩, fun ok => ⟨ok.1, ?_⟩⟩
  rw [parsed_eq]
  rintro ev ⟨⟩
  exact ok.2

/-- The live orders are well formed and the engine tracks them. -/
structure Tracked (s : ItchFeed layout) : Prop where
  formed : WellFormed s.live
  tracks : s.engine.Tracks s.live

theorem create_tracked : (create layout).Tracked :=
  ⟨⟨List.nodup_nil, by simp [create], by simp [create]⟩, create_tracks⟩

/-- Executions and cancels of an addressed order. -/
theorem tracks_take {e : OrderBookEngine layout} {live : List LiveOrder} {ev : BookEvent}
    {orderRef : UInt64} {shares : UInt32} (formed : WellFormed live) (tracks : e.Tracks live)
    (valid : Valid live (.take orderRef shares)) (addressed : Addressed live (.take orderRef shares))
    (venue : ev.venue = .nasdaq) (ref : ev.orderId = orderRef) (symbol : ev.symbol = {})
    (qty : ev.qty = shares) (kept : ev.type ≠ .delete) :
    (e.applyReduce ev).Tracks (OrderLife.step live (.take orderRef shares)) := by
  obtain ⟨order, member, rfl, enough⟩ := valid
  have blank := addressed.2 order member rfl
  exact tracks.take formed member
    (takes_part enough addressed.1 blank venue ref symbol qty kept)

theorem Tracked.step (small : layout.size ≤ 2 ^ 32) (tracked : s.Tracked)
    (admissible : s.Admissible p) (addressed : Addressed s.live p.message.action) :
    (s.step p).Tracked := by
  obtain ⟨formed, tracks⟩ := tracked
  refine ⟨formed.step admissible.1, ?_⟩
  have valid := admissible.1
  have accepted := admissible.accepted
  rw [step_engine, step_live]
  obtain ⟨message, sequence, ingestTsNs⟩ := p
  cases message with
  | addOrder header add =>
    exact tracks.enter small valid.2.1 valid.2.2 valid.1 ⟨rfl, rfl, rfl, rfl, rfl, rfl⟩ accepted
  | addOrderMpid header add attribution =>
    exact tracks.enter small valid.2.1 valid.2.2 valid.1 ⟨rfl, rfl, rfl, rfl, rfl, rfl⟩ accepted
  | orderExecuted header orderRef shares matchNumber =>
    exact tracks_take formed tracks valid addressed rfl rfl rfl rfl (by nofun)
  | orderExecutedPrice header orderRef shares matchNumber printable price =>
    exact tracks_take formed tracks valid addressed rfl rfl rfl rfl (by nofun)
  | orderCancel header orderRef shares =>
    exact tracks_take formed tracks valid addressed rfl rfl rfl rfl (by nofun)
  | orderDelete header orderRef =>
    obtain ⟨order, member, rfl⟩ := valid
    have blank := addressed order member rfl
    have removed := leave_eq_take formed member
    have takes : Takes ((ItchMessage.orderDelete header order.orderRef).event sequence ingestTsNs)
        order order.remaining := ⟨rfl, rfl, blank.symm, if_pos (Or.inl rfl), fun _ => rfl⟩
    exact removed ▸ tracks.take formed member takes
  | orderReplace header orderRef newRef shares price => exact addressed.elim

theorem Tracked.bookExact (tracked : s.Tracked) : s.BookExact :=
  fun symbol side price known => (tracked.tracks.books symbol side known).levelExact price

end ItchFeed
end FeedHandler
