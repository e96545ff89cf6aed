import FeedHandler.Lib.Run
import FeedHandler.Phase3.BookConservation
import FeedHandler.Phase3.OrderLife
import FeedHandler.Proto.IexDeep

/-! From the IEX DEEP+ feed to the book. Messages carry the symbol of the order, so
executions and deletes reach the right book. A modify message does not: the parser makes
it a Replace without a reference id and without a side, which takes nothing off the old
level and adds nothing to the new one. -/
namespace FeedHandler

open OrderLife

namespace DeepMessage

/-- The order an add message brings in. -/
def order (side : UInt8) (symbol : SymbolKey) (orderId : UInt64) (size : UInt32)
    (price : UInt64) : LiveOrder where
  orderRef := orderId
  symbol := symbol
  side := IexDeep.decodeSide side
  price := price.toUInt32
  remaining := size

/-- The live orders after a message: a modify message gives its order a new price and
size. -/
def liveAfter (live : List LiveOrder) : DeepMessage → List LiveOrder
  | addOrder side _ symbol orderId size price =>
    step live (.enter (order side symbol orderId size price))
  | modifyOrder _ orderIdRef size price =>
    alter live orderIdRef fun order => some (order.replacedBy orderIdRef size price.toUInt32)
  | deleteOrder _ orderIdRef => step live (.leave orderIdRef)
  | orderExecuted _ orderIdRef size _ _ => step live (.take orderIdRef size)
  | _ => live

/-- A live order of the symbol that the message carries. -/
def Refers (live : List LiveOrder) (header : DeepHeader) (orderIdRef : UInt64)
    (fits : LiveOrder → Prop) : Prop :=
  ∃ order ∈ live, order.orderRef = orderIdRef ∧ order.symbol = header.symbol ∧ fits order

/-- The messages of a valid order life. -/
def Valid (live : List LiveOrder) : DeepMessage → Prop
  | addOrder side _ symbol orderId size price =>
    OrderLife.Valid live (.enter (order side symbol orderId size price)) ∧ price.toNat < 2 ^ 32
  | modifyOrder header orderIdRef size price =>
    Refers live header orderIdRef (fun _ => True) ∧ 0 < size ∧ price.toNat < 2 ^ 32
  | deleteOrder header orderIdRef => Refers live header orderIdRef fun _ => True
  | orderExecuted header orderIdRef size _ _ =>
    Refers live header orderIdRef fun order => size ≤ order.remaining
  | _ => True

/-- The messages whose meaning survives the parser: no modify, and no execution of nothing,
which the engine takes for an execution of all. -/
def Plain : DeepMessage → Prop
  | modifyOrder .. => False
  | orderExecuted _ _ size _ _ => 0 < size
  | _ => True

/-- A modify message changes the price or the size of its order. -/
def Telling (live : List LiveOrder) : DeepMessage → Prop
  | modifyOrder _ orderIdRef size price => ∀ order ∈ live, order.orderRef = orderIdRef →
    order.price ≠ price.toUInt32 ∨ order.remaining ≠ size
  | _ => True

instance : (m : DeepMessage) → Decidable (Plain m)
  | modifyOrder .. => inferInstanceAs (Decidable False)
  | orderExecuted _ _ size _ _ => inferInstanceAs (Decidable (0 < size))
  | systemEvent .. | securityEvent .. | addOrder .. | deleteOrder .. | trade .. =>
    inferInstanceAs (Decidable True)

end DeepMessage

/-- The table entry of a live IEX order. -/
def LiveOrder.iexEntry (order : LiveOrder) (queueAhead : UInt64) : OrderRef where
  venue := .iex
  symbolU64 := order.symbol.asU64
  side := order.side
  price := order.price
  qty := order.remaining
  queueAhead := queueAhead

namespace OrderBookEngine

/-- Within a venue, keys are as distinct as ids. -/
theorem orderKey_inj (venue : Venue) {a b : UInt64} :
    orderKey venue a = orderKey venue b ↔ a = b := by
  simp only [orderKey, UInt64.xor_right_inj]

/-- The table has the live orders, and nothing else. -/
structure Mirrors (orders : UInt64 → Option OrderRef) (live : List LiveOrder) : Prop where
  entry : ∀ order ∈ live, ∃ ahead,
    orders (orderKey .iex order.orderRef) = some (order.iexEntry ahead)
  named : ∀ key stored, orders key = some stored →
    ∃ order ∈ live, key = orderKey .iex order.orderRef

variable {orders : UInt64 → Option OrderRef} {live : List LiveOrder} {order : LiveOrder}

theorem Mirrors.nil : Mirrors (fun _ => none) [] where
  entry := by simp
  named := fun _ _ found => absurd found.symm (Option.some_ne_none _)

theorem Mirrors.absent (mirrors : Mirrors orders live) {orderRef : UInt64}
    (fresh : ∀ order ∈ live, order.orderRef ≠ orderRef) :
    orders (orderKey .iex orderRef) = none := by
  apply Option.eq_none_iff_forall_ne_some.mpr
  intro stored found
  obtain ⟨order, member, same⟩ := mirrors.named _ stored found
  exact fresh order member ((orderKey_inj .iex).mp same).symm

theorem Mirrors.enter (mirrors : Mirrors orders live) (ahead : UInt64)
    (fresh : ∀ other ∈ live, other.orderRef ≠ order.orderRef) :
    Mirrors (Function.update orders (orderKey .iex order.orderRef) (some (order.iexEntry ahead)))
      (order :: live) where
  entry := by
    intro other member
    rcases List.mem_cons.mp member with rfl | before
    · exact ⟨ahead, Function.update_self _ _ _⟩
    · obtain ⟨earlier, found⟩ := mirrors.entry other before
      refine ⟨earlier, ?_⟩
      rwa [Function.update_of_ne fun same => fresh other before ((orderKey_inj .iex).mp same)]
  named := by
    intro key stored found
    rcases eq_or_ne key (orderKey .iex order.orderRef) with same | other
    · exact ⟨order, by simp, same⟩
    · rw [Function.update_of_ne other] at found
      obtain ⟨listed, member, same⟩ := mirrors.named key stored found
      exact ⟨listed, by simp [member], same⟩

theorem Mirrors.take (mirrors : Mirrors orders live) (formed : WellFormed live)
    (member : order ∈ live) (ahead : UInt64) (amount : UInt32) :
    Mirrors (Function.update orders (orderKey .iex order.orderRef)
        ((order.without amount).map (·.iexEntry ahead)))
      (alter live order.orderRef (·.without amount)) where
  entry := by
    intro after listed
    rcases mem_alter.mp listed with ⟨before, other⟩ | ⟨before, present, same, result⟩
    · obtain ⟨earlier, found⟩ := mirrors.entry after before
      refine ⟨earlier, ?_⟩
      rwa [Function.update_of_ne fun same => other ((orderKey_inj .iex).mp same)]
    · obtain rfl := formed.eq_of_ref present member same
      have named : after.orderRef = before.orderRef := by rw [(without_eq_some result).2]
      exact ⟨ahead, by rw [named, Function.update_self, result, Option.map_some]⟩
  named := by
    intro key stored found
    rcases eq_or_ne key (orderKey .iex order.orderRef) with same | other
    · rw [same, Function.update_self] at found
      obtain ⟨after, result, _⟩ := Option.map_eq_some_iff.mp found
      refine ⟨after, mem_alter.mpr (Or.inr ⟨order, member, rfl, result⟩), ?_⟩
      rw [same, (without_eq_some result).2]
    · rw [Function.update_of_ne other] at found
      obtain ⟨before, present, same⟩ := mirrors.named key stored found
      have apart : before.orderRef ≠ order.orderRef := fun named => other (by rw [same, named])
      exact ⟨before, mem_alter.mpr (Or.inl ⟨present, apart⟩), same⟩

variable {layout : ProbeLayout UInt64} {e : OrderBookEngine layout}

/-- What rests in the table at a place of the IEX books is what rests there of the live
orders. -/
theorem Mirrors.restingQty_eq (mirrors : Mirrors e.orders.find? live) (sound : e.orders.Sound)
    (formed : WellFormed live) (symbol : SymbolKey) (side : Side) (price : UInt32) :
    e.restingQty .iex symbol.asU64 side price = restingShares live symbol side price := by
  have distinct : (live.map fun order => orderKey .iex order.orderRef).Nodup := by
    have apart := formed.distinct
    rw [List.nodup_map_iff_inj_on formed.distinct.of_map] at apart ⊢
    intro a memberA b memberB same
    exact apart a memberA b memberB ((orderKey_inj .iex).mp same)
  have held : ∀ key, (∃ stored, e.orders.Holds key stored) ↔
      key ∈ live.map fun order => orderKey .iex order.orderRef := by
    intro key
    simp only [← sound.find?_iff, List.mem_map]
    constructor
    · rintro ⟨stored, found⟩
      obtain ⟨order, member, same⟩ := mirrors.named key stored found
      exact ⟨order, member, same.symm⟩
    · rintro ⟨order, member, rfl⟩
      obtain ⟨ahead, found⟩ := mirrors.entry order member
      exact ⟨_, found⟩
  rw [restingQty, sound.total_eq_sum _ distinct held, restingShares, List.map_map]
  congr 1
  apply List.map_congr_left
  intro order member
  obtain ⟨ahead, found⟩ := mirrors.entry order member
  simp only [Function.comp_apply, found, Option.map_some, Option.getD_some, OrderRef.restsAt,
    LiveOrder.iexEntry, SymbolKey.asU64_inj, true_and, sharesAt]

end OrderBookEngine

structure IexPacket where
  message : DeepMessage
  sequence : UInt64 := 0
  ingestTsNs : UInt64 := 0

/-- The engine behind the parser, with the live orders of the messages so far. -/
structure IexFeed (layout : ProbeLayout UInt64) where
  live : List LiveOrder := []
  engine : OrderBookEngine layout
  stats : IexDeep.ParseStats := {}

namespace IexFeed

variable {layout : ProbeLayout UInt64}

def create (layout : ProbeLayout UInt64) : IexFeed layout where
  engine := .create layout

def parsed (s : IexFeed layout) (p : IexPacket) : Option BookEvent × IexDeep.ParseStats :=
  IexDeep.parseMessage p.message.encode p.sequence p.ingestTsNs s.stats

def step (s : IexFeed layout) (p : IexPacket) : IexFeed layout where
  live := p.message.liveAfter s.live
  engine :=
    match (s.parsed p).1 with
    | none => s.engine
    | some ev => (s.engine.onEvent ev).1
  stats := (s.parsed p).2

/-- A valid order life whose orders the table has room for. -/
def Admissible (s : IexFeed layout) (p : IexPacket) : Prop :=
  p.message.Valid s.live ∧
    ∀ ev, (s.parsed p).1 = some ev → (s.engine.onEvent ev).2.orderTableSaturated = false

/-- Level by level, the snapshot is the sum of the live orders. -/
def BookExact (s : IexFeed layout) : Prop :=
  ∀ symbol side price, side ≠ Side.unknown →
    LevelExact ((s.engine.snapshot .iex symbol.asU64).levels side) price
      (restingShares s.live symbol side price)

variable {s : IexFeed layout} {p : IexPacket}

theorem parsed_eq (s : IexFeed layout) (p : IexPacket) :
    s.parsed p = (some (p.message.event p.sequence p.ingestTsNs),
      s.stats.parsed p.message.type) :=
  IexDeep.parseMessage_encode _ _ _ _

@[simp] theorem step_live (s : IexFeed layout) (p : IexPacket) :
    (s.step p).live = p.message.liveAfter s.live := rfl

theorem step_engine (s : IexFeed layout) (p : IexPacket) :
    (s.step p).engine = s.engine.step (p.message.event p.sequence p.ingestTsNs) := by
  simp only [step]
  rw [parsed_eq]
  rfl

theorem admissible_iff : s.Admissible p ↔ p.message.Valid s.live ∧
    s.engine.Unsaturated (p.message.event p.sequence p.ingestTsNs) := by
  refine ⟨fun ok => ⟨ok.1, ok.2 _ (by rw [parsed_eq])⟩, fun ok => ⟨ok.1, ?_⟩⟩
  rw [parsed_eq]
  rintro ev ⟨⟩
  exact ok.2

open OrderBookEngine DeepMessage

/-- The live orders are well formed with ids the engine can key, the engine's books balance
its table, and the table has the live orders. -/
structure Tracked (s : IexFeed layout) : Prop where
  formed : WellFormed s.live
  ids : ∀ order ∈ s.live, ValidId order.orderRef
  balanced : s.engine.Balanced
  mirrors : Mirrors s.engine.orders.find? s.live

theorem create_tracked : (create layout).Tracked where
  formed := ⟨List.nodup_nil, by simp [create], by simp [create]⟩
  ids := by simp [create]
  balanced := create_balanced
  mirrors := by
    have empty : (OrderBookEngine.create layout).orders.find? = fun _ => none :=
      congrArg BookSpec.orders create_spec
    exact empty ▸ Mirrors.nil

theorem Tracked.bookExact (tracked : s.Tracked) : s.BookExact := by
  intro symbol side price known
  rw [← tracked.mirrors.restingQty_eq tracked.balanced.sound tracked.formed]
  exact tracked.balanced.conserved .iex symbol.asU64 side price known

theorem narrow_eq {price : UInt64} (small : price.toNat < 2 ^ 32) :
    IexDeep.narrowU64ToU32 price = price.toUInt32 := by
  apply UInt32.toNat_inj.mp
  rw [IexDeep.narrowU64ToU32, UInt64.toNat_toUInt32, UInt32.toNat_ofNat']
  omega

/-- The event of a message that names a live order is lawful. -/
theorem Tracked.lawful_reduction (tracked : s.Tracked) {order : LiveOrder}
    (member : order ∈ s.live) {ev : BookEvent} (venue : ev.venue = .iex)
    (ref : ev.orderId = order.orderRef) (symbol : ev.symbol = order.symbol)
    (reduces : ev.type.reduces = true) (unsaturated : s.engine.Unsaturated ev) :
    s.engine.Lawful ev where
  adds := by
    intro adds
    cases kind : ev.type <;> simp [kind, EventType.adds, EventType.reduces] at adds reduces
  reduces := by
    intro _
    rw [ref]
    refine ⟨tracked.ids order member, ?_⟩
    obtain ⟨ahead, found⟩ := tracked.mirrors.entry order member
    intro stored named
    rw [venue, found] at named
    cases named
    exact ⟨venue.symm, by rw [symbol]; rfl⟩
  replaces := by
    intro replaces
    simp [replaces, EventType.reduces] at reduces
  unsaturated := unsaturated

theorem Tracked.lawful_add (tracked : s.Tracked) {order : LiveOrder} {ev : BookEvent}
    (valid : OrderLife.Valid s.live (.enter order)) (venue : ev.venue = .iex)
    (ref : ev.orderId = order.orderRef) (side : ev.side = order.side)
    (shares : ev.qty = order.remaining) (add : ev.type = .add)
    (unsaturated : s.engine.Unsaturated ev) : s.engine.Lawful ev where
  adds := by
    obtain ⟨⟨nonzero, small, fresh⟩, known, positive⟩ := valid
    intro _
    refine ⟨⟨ref ▸ ⟨nonzero, small⟩, side ▸ known, shares ▸ positive⟩, ?_⟩
    rw [venue, ref]
    exact tracked.mirrors.absent fresh
  reduces := by
    intro reduces
    simp [add, EventType.reduces] at reduces
  replaces := by
    intro replaces
    simp [add] at replaces
  unsaturated := unsaturated

/-- Messages that leave the live orders alone are events that leave the engine alone. -/
theorem Tracked.idle (tracked : s.Tracked) {s' : IexFeed layout} {ev : BookEvent}
    (live : s'.live = s.live) (engine : s'.engine = s.engine.step ev)
    (idle : ev.type = .system ∨ ev.type = .trade) : s'.Tracked := by
  have same : s.engine.step ev = s.engine := by
    rcases idle with kind | kind <;> simp only [OrderBookEngine.step, onEvent, apply, kind]
  rw [same] at engine
  exact ⟨live ▸ tracked.formed, live ▸ tracked.ids, engine ▸ tracked.balanced,
    engine ▸ live ▸ tracked.mirrors⟩

/-- An execution of some shares leaves of a table entry what it leaves of the order. -/
theorem remaining_without {order : LiveOrder} {ev : BookEvent} (positive : 0 < ev.qty)
    (enough : ev.qty ≤ order.remaining) (kept : ev.type ≠ .delete) (ahead : UInt64) :
    BookSpec.remaining ev (order.iexEntry ahead) =
      (order.without ev.qty).map (·.iexEntry ahead) := by
  have part : BookSpec.taken ev (order.iexEntry ahead) = ev.qty := by
    refine if_neg ?_
    rintro (none | more)
    · exact UInt32.lt_irrefl _ (none ▸ positive)
    · exact UInt32.not_lt.mpr enough more
  simp only [BookSpec.remaining, part, kept, or_false, LiveOrder.without]
  by_cases more : ev.qty < order.remaining
  · rw [if_pos more]
    exact if_neg (UInt32.not_le.mpr more)
  · rw [if_neg more]
    exact if_pos (UInt32.not_lt.mp more)

/-- Shares are taken from a live order. -/
theorem Tracked.take (small : layout.size ≤ 2 ^ 32) (tracked : s.Tracked) {order : LiveOrder}
    (member : order ∈ s.live) (amount : UInt32) {s' : IexFeed layout} {ev : BookEvent}
    (live : s'.live = alter s.live order.orderRef (·.without amount))
    (formed : WellFormed s'.live) (engine : s'.engine = s.engine.step ev)
    (lawful : s.engine.Lawful ev) (whole : s.engine.DeletesWhole ev) (venue : ev.venue = .iex)
    (ref : ev.orderId = order.orderRef) (reduces : ev.type.reduces = true)
    (left : ∀ ahead, BookSpec.remaining ev (order.iexEntry ahead) =
      (order.without amount).map (·.iexEntry ahead)) : s'.Tracked := by
  obtain ⟨_, spec, _⟩ := step_spec tracked.balanced.sound lawful.unsaturated
  obtain ⟨ahead, found⟩ := tracked.mirrors.entry order member
  have table : (s.engine.step ev).orders.find? = Function.update s.engine.orders.find?
      (orderKey .iex order.orderRef) ((order.without amount).map (·.iexEntry ahead)) := by
    refine (congrArg BookSpec.orders spec).trans ?_
    refine (BookSpec.ordersAfter_reduces _ _ reduces).trans ?_
    simp only [BookSpec.named, OrderBookEngine.spec, venue, ref, found, Option.bind_some, left]
  refine ⟨formed, ?_, ?_, ?_⟩
  · rw [live]
    intro after listed
    rcases mem_alter.mp listed with ⟨before, _⟩ | ⟨before, present, _, result⟩
    · exact tracked.ids after before
    · rw [(without_eq_some result).2]
      exact tracked.ids before present
  · rw [engine]
    exact tracked.balanced.onEvent small lawful whole
  · rw [engine, live, table]
    exact tracked.mirrors.take tracked.formed member ahead amount

theorem Tracked.add (small : layout.size ≤ 2 ^ 32) (tracked : s.Tracked) {order : LiveOrder}
    {s' : IexFeed layout} {ev : BookEvent} (valid : OrderLife.Valid s.live (.enter order))
    (live : s'.live = order :: s.live) (engine : s'.engine = s.engine.step ev)
    (brought : ∀ ahead, BookSpec.broughtOrder ev ahead = order.iexEntry ahead)
    (ref : ev.orderId = order.orderRef) (add : ev.type = .add)
    (unsaturated : s.engine.Unsaturated ev) : s'.Tracked := by
  obtain ⟨⟨nonzero, bound, fresh⟩, known, positive⟩ := id valid
  have venue : ev.venue = .iex := congrArg OrderRef.venue (brought 0)
  have lawful := tracked.lawful_add valid venue ref (congrArg OrderRef.side (brought 0))
    (congrArg OrderRef.qty (brought 0)) add unsaturated
  obtain ⟨_, spec, _⟩ := step_spec tracked.balanced.sound unsaturated
  have table : (s.engine.step ev).orders.find? = BookSpec.ordersAfter s.engine.orders.find? ev _ :=
    congrArg BookSpec.orders spec
  simp only [BookSpec.ordersAfter, add, BookSpec.enter, ref, if_neg nonzero, venue, brought] at table
  refine ⟨?_, ?_, ?_, ?_⟩
  · rw [live]
    exact tracked.formed.step valid
  · rw [live]
    exact List.forall_mem_cons.mpr ⟨⟨nonzero, bound⟩, tracked.ids⟩
  · rw [engine]
    refine tracked.balanced.onEvent small lawful ?_
    intro deletes
    rw [add] at deletes
    cases deletes
  · rw [engine, live, table]
    exact tracked.mirrors.enter _ fresh

/-- Step lemma: plain messages keep the engine on the live orders. -/
theorem Tracked.step (small : layout.size ≤ 2 ^ 32) (tracked : s.Tracked)
    (admissible : s.Admissible p) (plain : p.message.Plain) : (s.step p).Tracked := by
  obtain ⟨valid, unsaturated⟩ := admissible_iff.mp admissible
  have engine := step_engine s p
  obtain ⟨message, sequence, ingestTsNs⟩ := p
  cases message with
  | systemEvent event timestamp => exact tracked.idle rfl engine (Or.inl rfl)
  | securityEvent header => exact tracked.idle rfl engine (Or.inl rfl)
  | trade header size price tradeId => exact tracked.idle rfl engine (Or.inr rfl)
  | modifyOrder header orderIdRef size price => exact plain.elim
  | addOrder side timestamp symbol orderId size price =>
    refine tracked.add small valid.1 rfl engine ?_ rfl rfl unsaturated
    intro ahead
    simp only [BookSpec.broughtOrder, DeepMessage.event, narrow_eq valid.2]
    rfl
  | deleteOrder header orderIdRef =>
    obtain ⟨order, member, rfl, symbol, _⟩ := valid
    have lawful := tracked.lawful_reduction member rfl rfl symbol.symm rfl unsaturated
    have removed := leave_eq_take tracked.formed member
    have leaves : OrderLife.Valid s.live (.leave order.orderRef) := ⟨order, member, rfl⟩
    refine tracked.take small member order.remaining removed (tracked.formed.step leaves) engine
      lawful (fun _ _ _ => Or.inl rfl) rfl rfl rfl ?_
    intro ahead
    simp [BookSpec.remaining, LiveOrder.without, DeepMessage.event]
  | orderExecuted header orderIdRef size price tradeId =>
    obtain ⟨order, member, rfl, symbol, enough⟩ := valid
    have lawful := tracked.lawful_reduction member rfl rfl symbol.symm rfl unsaturated
    have takes : OrderLife.Valid s.live (.take order.orderRef size) := ⟨order, member, rfl, enough⟩
    refine tracked.take small member size rfl (tracked.formed.step takes) engine lawful
      (fun deletes => by cases deletes) rfl rfl rfl ?_
    exact remaining_without plain enough (by simp [DeepMessage.event])

/-- A modify message leaves every book as it is: no order has the reference id zero, and the
new quantity has no side. -/
theorem Tracked.modify_books (tracked : s.Tracked) {ev : BookEvent}
    (unsaturated : s.engine.Unsaturated ev) (replaces : ev.type = .replace)
    (venue : ev.venue = .iex) (unreferenced : ev.referenceOrderId = 0)
    (unsided : ev.side = .unknown) : (s.engine.step ev).books = s.engine.books := by
  have none : s.engine.orders.find? (orderKey .iex 0) = none := by
    refine tracked.mirrors.absent fun order member zero => ?_
    exact (tracked.ids order member).1 zero
  obtain ⟨_, spec, _⟩ := step_spec tracked.balanced.sound unsaturated
  refine (congrArg BookSpec.books spec).trans ?_
  simp only [BookSpec.step, BookSpec.bookAfter, replaces, BookSpec.withoutReferenced,
    BookSpec.referenced, OrderBookEngine.spec, venue, unreferenced, none, unsided, VenueBook.add,
    BookSpec.ownBook, Function.update_eq_self]

theorem Tracked.modify_missed (tracked : s.Tracked) {order : LiveOrder} (member : order ∈ s.live)
    {s' : IexFeed layout} {shares price : UInt32}
    (live : s'.live = alter s.live order.orderRef
      fun other => some (other.replacedBy order.orderRef shares price))
    (books : s'.engine.books = s.engine.books)
    (changing : order.price ≠ price ∨ order.remaining ≠ shares) : ¬ s'.BookExact := by
  intro faithful
  have known := tracked.formed.known order member
  have after := faithful order.symbol order.side order.price known
  simp only [snapshot, books, live] at after
  have same := after.unique (tracked.bookExact order.symbol order.side order.price known)
  exact resting_replaced_ne tracked.formed member order.orderRef changing same

/-- An execution of nothing takes the whole order off its level. -/
theorem Tracked.nothing_missed (tracked : s.Tracked) {order : LiveOrder} (member : order ∈ s.live)
    {s' : IexFeed layout} {ev : BookEvent}
    (live : s'.live = alter s.live order.orderRef (·.without 0))
    (engine : s'.engine = s.engine.step ev) (unsaturated : s.engine.Unsaturated ev)
    (executes : ev.type = .executePrice) (venue : ev.venue = .iex)
    (ref : ev.orderId = order.orderRef) (symbol : ev.symbol = order.symbol)
    (nothing : ev.qty = 0) : ¬ s'.BookExact := by
  intro faithful
  obtain ⟨ahead, found⟩ := tracked.mirrors.entry order member
  obtain ⟨_, spec, _⟩ := step_spec tracked.balanced.sound unsaturated
  have known := tracked.formed.known order member
  have remains := UInt32.lt_iff_toNat_lt.mp (tracked.formed.positive order member)
  have reduced : s'.engine.books .iex order.symbol.asU64 =
      (s.engine.books .iex order.symbol.asU64).reduce order.side order.price order.remaining := by
    rw [engine]
    refine (congrFun (congrFun (congrArg BookSpec.books spec) .iex) order.symbol.asU64).trans ?_
    simp only [BookSpec.step, BookSpec.bookAfter, executes, BookSpec.named, OrderBookEngine.spec,
      venue, ref, symbol, found, Function.update_self, BookSpec.taken, nothing, true_or, if_true,
      BookSpec.ownBook]
    rfl
  have resting := tracked.mirrors.restingQty_eq tracked.balanced.sound tracked.formed order.symbol
    order.side order.price
  have held := qty_le_resting (tracked.balanced.sound.find?_iff.mp found)
  have within : order.remaining.toNat ≤
      s.engine.restingQty .iex order.symbol.asU64 order.side order.price := held
  have level := tracked.balanced.reduced_level known within
  have after := faithful order.symbol order.side order.price known
  simp only [snapshot, reduced, live, take_nothing tracked.formed] at after
  have same := after.unique level
  simp only [UInt32.toNat_zero] at remains
  omega

/-- In a tracked state, an exact book after a telling message means that it was plain. -/
theorem Tracked.plain (tracked : s.Tracked) (admissible : s.Admissible p)
    (telling : p.message.Telling s.live) (faithful : (s.step p).BookExact) : p.message.Plain := by
  obtain ⟨valid, unsaturated⟩ := admissible_iff.mp admissible
  have engine := step_engine s p
  obtain ⟨message, sequence, ingestTsNs⟩ := p
  cases message with
  | systemEvent event timestamp => trivial
  | securityEvent header => trivial
  | addOrder side timestamp symbol orderId size price => trivial
  | deleteOrder header orderIdRef => trivial
  | trade header size price tradeId => trivial
  | modifyOrder header orderIdRef size price =>
    obtain ⟨⟨order, member, rfl, _⟩, _⟩ := valid
    have books := tracked.modify_books unsaturated rfl rfl rfl rfl
    exact tracked.modify_missed member rfl (engine ▸ books) (telling order member rfl) faithful
  | orderExecuted header orderIdRef size price tradeId =>
    obtain ⟨order, member, rfl, symbol, _⟩ := valid
    by_contra none
    have nothing : size = 0 := UInt32.le_zero_iff.mp (UInt32.not_lt.mp none)
    subst nothing
    exact tracked.nothing_missed member rfl engine unsaturated rfl rfl rfl symbol.symm rfl faithful

/-- The obligation that every message of a run is plain. -/
def AllPlain (packets : List IexPacket) : Prop := ∀ p ∈ packets, p.message.Plain

/-- Run lemma: the engine keeps to the live orders of a run of plain messages. -/
theorem Tracked.run (small : layout.size ≤ 2 ^ 32) {packets : List IexPacket}
    (tracked : s.Tracked) (admissible : Run.Along IexFeed.step Admissible s packets)
    (plain : AllPlain packets) : (packets.foldl IexFeed.step s).Tracked :=
  (admissible.and (Run.along_of_forall s packets plain)).invariant (P := Tracked)
    (fun _ _ tracked ok => tracked.step small ok.1 ok.2) tracked

/-- Run lemma: telling messages that keep the book exact are plain. -/
theorem Tracked.run_plain (small : layout.size ≤ 2 ^ 32) {packets : List IexPacket}
    (tracked : s.Tracked) (admissible : Run.Along IexFeed.step Admissible s packets)
    (telling : Run.Along IexFeed.step (fun s p => p.message.Telling s.live) s packets)
    (faithful : ∀ n, ((packets.take n).foldl IexFeed.step s).BookExact) : AllPlain packets := by
  induction packets generalizing s with
  | nil => exact fun p member => absurd member List.not_mem_nil
  | cons p rest ih =>
    have first := tracked.plain admissible.1 telling.1 (faithful 1)
    have next := tracked.step small admissible.1 first
    exact List.forall_mem_cons.mpr
      ⟨first, ih next admissible.2 telling.2 fun n => faithful (n + 1)⟩

/-- The engine as it is built. -/
def initial : IexFeed OrderBookEngine.orderLayout := create OrderBookEngine.orderLayout

/-- The book is exact after every initial part of a stream without modify messages and
without executions of nothing. Where every modify message changes the price or the size of
its order, no other stream keeps the book exact. -/
theorem iex_book_exact (packets : List IexPacket)
    (admissible : Run.Along step Admissible initial packets) :
    (AllPlain packets → ∀ n, ((packets.take n).foldl step initial).BookExact) ∧
      (Run.Along step (fun s p => p.message.Telling s.live) initial packets →
        (∀ n, ((packets.take n).foldl step initial).BookExact) → AllPlain packets) := by
  have small : OrderBookEngine.orderLayout.size ≤ 2 ^ 32 := by decide
  constructor
  · intro plain n
    rw [← List.take_append_drop n packets, Run.along_append] at admissible
    exact (create_tracked.run small admissible.1
      fun p member => plain p (List.mem_of_mem_take member)).bookExact
  · exact create_tracked.run_plain small admissible

def iexStock : SymbolKey := ⟨⟨#[90, 73, 69, 88, 84, 32, 32, 32], rfl⟩⟩

def iexAdd : IexPacket where
  message := .addOrder '8'.toUInt8 1 iexStock 7 100 1500000

def iexExecute (size : UInt32) : IexPacket where
  message := .orderExecuted { symbol := iexStock } 7 size 1500000 1

def iexDelete : IexPacket where
  message := .deleteOrder { symbol := iexStock } 7

def iexModify : IexPacket where
  message := .modifyOrder { symbol := iexStock } 7 100 1510000

instance (live : List LiveOrder) (header : DeepHeader) (orderIdRef : UInt64)
    (fits : LiveOrder → Prop) [DecidablePred fits] :
    Decidable (Refers live header orderIdRef fits) :=
  inferInstanceAs (Decidable (∃ order ∈ live, _ ∧ _ ∧ fits order))

instance (live : List LiveOrder) : (m : DeepMessage) → Decidable (m.Valid live)
  | .addOrder .. => inferInstanceAs (Decidable (_ ∧ _))
  | .modifyOrder .. => inferInstanceAs (Decidable (_ ∧ _ ∧ _))
  | .deleteOrder header orderIdRef =>
    inferInstanceAs (Decidable (Refers live header orderIdRef fun _ => True))
  | .orderExecuted header orderIdRef size _ _ =>
    inferInstanceAs (Decidable (Refers live header orderIdRef fun order => size ≤ order.remaining))
  | .systemEvent .. | .securityEvent .. | .trade .. => inferInstanceAs (Decidable True)

theorem iex_book_exact_plain :
    Run.Along step Admissible initial [iexAdd, iexExecute 30, iexDelete] ∧
      ∀ n, (([iexAdd, iexExecute 30, iexDelete].take n).foldl step initial).BookExact := by
  have admissible : Run.Along step Admissible initial [iexAdd, iexExecute 30, iexDelete] := by
    simp only [Run.along_cons, Run.along_nil, admissible_iff]
    decide +kernel
  refine ⟨admissible, (iex_book_exact _ admissible).1 fun p member => ?_⟩
  revert p
  decide

/-- A modified order stays at its old price. -/
theorem modified_order_stays : ¬ ∀ packets : List IexPacket,
    Run.Along step Admissible initial packets →
      ∀ n, ((packets.take n).foldl step initial).BookExact := by
  intro claimed
  have admissible : Run.Along step Admissible initial [iexAdd, iexModify] := by
    simp only [Run.along_cons, Run.along_nil, admissible_iff]
    decide +kernel
  have added := create_tracked.step (by decide) admissible.1 trivial
  have telling : iexModify.message.Telling (initial.step iexAdd).live := by
    intro order member _
    obtain rfl := List.mem_singleton.mp member
    exact Or.inl (by decide)
  exact added.plain admissible.2.1 telling (claimed _ admissible 2)

end IexFeed
end FeedHandler
