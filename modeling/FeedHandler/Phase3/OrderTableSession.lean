import FeedHandler.Lib.ProbeTableRoom
import FeedHandler.Lib.Run
import FeedHandler.Phase3.OrderBookSpec

/-! The order table over a session, for any number of slots and any hash. Erased orders
leave tombstones that never become empty again, and an insert ends at an empty slot only:
once every slot was used, the table rejects every new order, however few are live. -/
namespace FeedHandler

/-- The calls an engine makes on its table. -/
inductive OrderTableCall where
  | put (key : UInt64) (value : OrderRef)
  | find (key : UInt64)
  | erase (key : UInt64)

namespace OrderTableCall

variable {layout : ProbeLayout UInt64} {t : ProbeTable layout OrderRef}
  {calls : List OrderTableCall}

def step (t : ProbeTable layout OrderRef) : OrderTableCall → ProbeTable layout OrderRef
  | put key value => (t.put key value).1
  | find _ => t
  | erase key => t.erase key

/-- The table takes the order while at most half of it counts as live. -/
def Served (t : ProbeTable layout OrderRef) : OrderTableCall → Prop
  | put key value => t.count ≤ layout.size / 2 → (t.put key value).2 = true
  | _ => True

/-- The order meets a slot that was never used, or its own key. -/
def Roomy (t : ProbeTable layout OrderRef) : OrderTableCall → Prop
  | put key _ => t.count ≤ layout.size / 2 → t.HasRoom key
  | _ => True

def puts : OrderTableCall → Bool
  | put _ _ => true
  | _ => false

theorem served_iff (call : OrderTableCall) : Served t call ↔ Roomy t call := by
  cases call with
  | put key value =>
    simp only [Served, Roomy, ProbeTable.put_accepted_iff]
    exact forall_congr' fun half => and_iff_right half
  | find key => exact Iff.rfl
  | erase key => exact Iff.rfl

theorem counted_step (counted : t.Counted) (call : OrderTableCall) : (step t call).Counted := by
  cases call with
  | put key value => exact counted.put key value
  | find key => exact counted
  | erase key => exact counted.erase key

theorem along_served_iff : Run.Along step Served t calls ↔ Run.Along step Roomy t calls :=
  ⟨Run.Along.mono fun _ call => (served_iff call).mp,
    Run.Along.mono fun _ call => (served_iff call).mpr⟩

/-- Every insert uses up at most one slot, and no other call uses any. -/
theorem unusedSlots_step (call : OrderTableCall) :
    t.unusedSlots ≤ (step t call).unusedSlots + if call.puts then 1 else 0 := by
  cases call with
  | put key value => exact ProbeTable.unusedSlots_put
  | find key => exact Nat.le_refl _
  | erase key => exact ProbeTable.unusedSlots_erase.ge

/-- A session with no more inserts than slots never used is served. -/
theorem along_served_of_short (short : calls.countP puts ≤ t.unusedSlots) :
    Run.Along step Served t calls := by
  induction calls generalizing t with
  | nil => trivial
  | cons call rest ih =>
    have used := unusedSlots_step (t := t) call
    rw [List.countP_cons] at short
    refine ⟨(served_iff call).mpr ?_, ih (by omega)⟩
    cases call with
    | put key value =>
      intro _
      have unused : 0 < t.unusedSlots := by
        simp only [puts, if_true] at short
        omega
      exact Or.inl (ProbeTable.unusedSlots_pos.mp unused)
    | find key => trivial
    | erase key => trivial

/-- The order of a key comes and goes. -/
def visit (key : UInt64) : List OrderTableCall := [put key {}, erase key]

/-- A visit of a key whose first slot was never used turns that slot into a tombstone. -/
theorem visit_spec {key : UInt64} (half : t.count ≤ layout.size / 2)
    (unused : t.slots (ProbeTable.position layout key 0) = .empty) :
    (visit key).foldl step t = { t with
      slots := Function.update t.slots (ProbeTable.position layout key 0) .tombstone } := by
  have located := ProbeTable.locate_first (k := key) (v := ({} : OrderRef)) (t := { t with
    slots := Function.update t.slots (ProbeTable.position layout key 0) (.live key {})
    count := t.count + 1 }) (Function.update_self _ _ _)
  simp only [visit, List.foldl_cons, List.foldl_nil, step, ProbeTable.put_first half unused,
    ProbeTable.erase, located]
  simp

/-- When the hash reaches every slot, some session of visits uses up any number of them. -/
theorem exhausts_upTo (reaches : ∀ i, ∃ key, ProbeTable.position layout key 0 = i) (used : Nat)
    (within : used ≤ layout.size) :
    ∃ calls : List OrderTableCall, calls.foldl step (.create layout OrderRef) =
      { slots := fun i => if i.val < used then .tombstone else .empty } := by
  induction used with
  | zero => exact ⟨[], rfl⟩
  | succ used ih =>
    obtain ⟨calls, reached⟩ := ih (by omega)
    obtain ⟨key, here⟩ := reaches ⟨used, within⟩
    refine ⟨calls ++ visit key, ?_⟩
    rw [List.foldl_append, reached, visit_spec (Nat.zero_le _) (by simp [here]), here]
    congr 1
    funext i
    by_cases last : i = ⟨used, within⟩
    · simp [last]
    · have other : i.val ≠ used := fun same => last (Fin.ext same)
      simp only [Function.update_of_ne last, Nat.lt_succ_iff_lt_or_eq, other, or_false]

/-- A table whose hash reaches every slot can be used up: no order is live, and yet it
rejects every order from then on. -/
theorem exhausts (reaches : ∀ i, ∃ key, ProbeTable.position layout key 0 = i) :
    ∃ calls : List OrderTableCall,
      (calls.foldl step (.create layout OrderRef)).count = 0 ∧
      ∀ key value, ((calls.foldl step (.create layout OrderRef)).put key value).2 = false := by
  obtain ⟨calls, reached⟩ := exhausts_upTo reaches layout.size le_rfl
  refine ⟨calls, by rw [reached], fun key value => ?_⟩
  rw [reached, Bool.eq_false_iff]
  intro accepted
  rcases (ProbeTable.put_accepted_iff.mp accepted).2 with ⟨i, unused⟩ | ⟨w, i, held⟩
  · simp [i.isLt] at unused
  · simp [i.isLt] at held

end OrderTableCall

namespace OrderBookEngine
open OrderTableCall

variable {layout : ProbeLayout UInt64} {e : OrderBookEngine layout} {ev : BookEvent}

/-- Add, AddMpid and Replace store an order, unless its id is zero. -/
def StoresOrder (ev : BookEvent) : Prop :=
  (ev.type.adds = true ∨ ev.type = .replace) ∧ ev.orderId ≠ 0

instance (ev : BookEvent) : Decidable (StoresOrder ev) :=
  inferInstanceAs (Decidable ((_ ∨ _) ∧ _))

/-- The table an event stores its order in: a Replace has erased the old order first. -/
def tableAtPut (e : OrderBookEngine layout) (ev : BookEvent) : ProbeTable layout OrderRef :=
  if ev.type = .replace then e.orders.erase (orderKey ev.venue ev.referenceOrderId) else e.orders

/-- The engine reports saturation only when more than half of its table is live. -/
def SaturatedOnlyWhenFull (e : OrderBookEngine layout) (ev : BookEvent) : Prop :=
  (e.onEvent ev).2.orderTableSaturated = true → layout.size / 2 < (e.step ev).orders.live

/-- While at most half of the table is live, a stored order meets an unused slot or its
own key. -/
def RoomForOrder (e : OrderBookEngine layout) (ev : BookEvent) : Prop :=
  StoresOrder ev → (e.tableAtPut ev).live ≤ layout.size / 2 →
    (e.tableAtPut ev).HasRoom (orderKey ev.venue ev.orderId)

theorem withoutReferenced_orders (e : OrderBookEngine layout) (ev : BookEvent) :
    (e.withoutReferenced ev).orders =
      e.orders.erase (orderKey ev.venue ev.referenceOrderId) := by
  simp only [withoutReferenced]
  cases found : e.orders.find? (orderKey ev.venue ev.referenceOrderId) with
  | none => exact (ProbeTable.erase_of_not_found found).symm
  | some order => rfl

theorem tableAtPut_counted (counted : e.orders.Counted) (ev : BookEvent) :
    (e.tableAtPut ev).Counted := by
  simp only [tableAtPut]
  split
  · exact counted.erase _
  · exact counted

theorem putOrder_nonzero (e : OrderBookEngine layout) (nonzero : ev.orderId ≠ 0) (ahead : UInt64) :
    ∃ order, (e.putOrder ev ahead).1.orders = (e.orders.put (orderKey ev.venue ev.orderId) order).1 ∧
      (e.putOrder ev ahead).2 = !(e.orders.put (orderKey ev.venue ev.orderId) order).2 := by
  simp only [putOrder, if_neg nonzero]
  exact ⟨_, rfl, rfl⟩

/-- An event that stores an order makes one insert. -/
theorem onEvent_stores (stores : StoresOrder ev) :
    ∃ order, (e.step ev).orders = ((e.tableAtPut ev).put (orderKey ev.venue ev.orderId) order).1 ∧
      (e.onEvent ev).2.orderTableSaturated =
        !((e.tableAtPut ev).put (orderKey ev.venue ev.orderId) order).2 := by
  obtain ⟨stored, nonzero⟩ := stores
  simp only [step, onEvent, apply, tableAtPut]
  cases kind : ev.type <;> simp only [kind, EventType.adds] at stored
  case add | addMpid =>
    exact putOrder_nonzero _ nonzero _
  case replace =>
    rw [if_pos rfl, ← withoutReferenced_orders, applyReplace_eq]
    exact putOrder_nonzero _ nonzero _
  all_goals simp at stored

/-- The other events never report saturation. -/
theorem onEvent_idle (idle : ¬ StoresOrder ev) : (e.onEvent ev).2.orderTableSaturated = false := by
  simp only [onEvent, apply]
  cases kind : ev.type <;> simp only [StoresOrder, kind, EventType.adds] at idle
  case add | addMpid =>
    have zero : ev.orderId = 0 := by simpa using idle
    simp only [applyAdd, putOrder, if_pos zero]
  case replace =>
    have zero : ev.orderId = 0 := by simpa using idle
    simp only [applyReplace, putOrder, if_pos zero]
  all_goals rfl

theorem applyReduce_counted (counted : e.orders.Counted) (ev : BookEvent) :
    (e.applyReduce ev).orders.Counted := by
  cases found : e.orders.find? (orderKey ev.venue ev.orderId) with
  | none =>
    simp only [applyReduce, found]
    exact counted
  | some order =>
    rw [applyReduce_some found]
    simp only
    split
    · exact counted.erase _
    · exact counted.assign _ _

theorem counted_step (counted : e.orders.Counted) (ev : BookEvent) : (e.step ev).orders.Counted := by
  by_cases stores : StoresOrder ev
  · obtain ⟨order, orders, _⟩ := onEvent_stores (e := e) stores
    rw [orders]
    exact (tableAtPut_counted counted ev).put _ _
  · simp only [step, onEvent, apply]
    cases kind : ev.type <;> simp only [StoresOrder, kind, EventType.adds] at stores
    case add | addMpid =>
      have zero : ev.orderId = 0 := by simpa using stores
      simp only [applyAdd, putOrder, if_pos zero]
      exact counted
    case replace =>
      have zero : ev.orderId = 0 := by simpa using stores
      rw [applyReplace_eq]
      simp only [putOrder, if_pos zero, setBook, withoutReferenced_orders]
      exact counted.erase _
    case execute | executePrice | cancel | delete =>
      exact applyReduce_counted counted ev
    all_goals exact counted

/-- Saturation is reported for lack of room exactly when the stored order finds none. -/
theorem saturatedOnlyWhenFull_iff (counted : e.orders.Counted) :
    e.SaturatedOnlyWhenFull ev ↔ e.RoomForOrder ev := by
  by_cases stores : StoresOrder ev
  · obtain ⟨order, orders, saturated⟩ := onEvent_stores (e := e) stores
    have before := tableAtPut_counted counted ev
    have taken := ProbeTable.put_accepted_iff (t := e.tableAtPut ev)
      (k := orderKey ev.venue ev.orderId) (v := order)
    rw [before.count] at taken
    simp only [SaturatedOnlyWhenFull, RoomForOrder, saturated, orders, Bool.not_eq_true']
    constructor
    · intro full _ half
      by_contra none
      have rejected : ((e.tableAtPut ev).put (orderKey ev.venue ev.orderId) order).2 = false :=
        Bool.eq_false_iff.mpr fun accepted => none (taken.mp accepted).2
      have more := full rejected
      rw [ProbeTable.live_of_slots (ProbeTable.put_rejected_slots rejected).1] at more
      omega
    · intro room rejected
      rw [ProbeTable.live_of_slots (ProbeTable.put_rejected_slots rejected).1]
      by_contra half
      have accepted := taken.mpr ⟨Nat.not_lt.mp half, room stores (Nat.not_lt.mp half)⟩
      rw [rejected] at accepted
      cases accepted
  · simp only [SaturatedOnlyWhenFull, RoomForOrder, onEvent_idle stores]
    exact ⟨fun _ => fun stored => absurd stored stores,
      fun _ reported => absurd reported Bool.false_ne_true⟩

theorem along_saturatedOnlyWhenFull_iff (counted : e.orders.Counted) {events : List BookEvent} :
    Run.Along step SaturatedOnlyWhenFull e events ↔ Run.Along step RoomForOrder e events := by
  induction events generalizing e with
  | nil => exact Iff.rfl
  | cons ev rest ih =>
    exact and_congr (saturatedOnlyWhenFull_iff counted) (ih (counted_step counted ev))

/-- A session of table calls is served, and a stream of events reports saturation only of
a table that is more than half live, exactly when every insert that meets a table at most
half live finds a slot that was never used or its own key. -/
theorem order_table_serves_iff (layout : ProbeLayout UInt64) (calls : List OrderTableCall)
    (events : List BookEvent) :
    (Run.Along OrderTableCall.step Served (.create layout OrderRef) calls ↔
        Run.Along OrderTableCall.step Roomy (.create layout OrderRef) calls) ∧
      (Run.Along step SaturatedOnlyWhenFull (create layout) events ↔
        Run.Along step RoomForOrder (create layout) events) :=
  ⟨along_served_iff, along_saturatedOnlyWhenFull_iff ProbeTable.create_counted⟩

/-- One round of the mixing of a key. -/
def xorShift (word : UInt64) : UInt64 := word ^^^ (word >>> 33)

theorem xorShift_involutive (word : UInt64) : xorShift (xorShift word) = word := by
  apply UInt64.toBitVec_inj.mp
  ext i inside
  have high : word.toBitVec.getLsbD (33 + (33 + i)) = false :=
    BitVec.getLsbD_of_ge _ _ (by omega)
  simp [xorShift, high]

/-- Mixing reaches every word: each round undoes itself and the multipliers are odd. -/
theorem mixKey_surjective (word : UInt64) : ∃ key, mixKey key = word := by
  refine ⟨xorShift (xorShift (xorShift word * 0x9cb4b2f8129337db) * 0x4f74430c22a54005), ?_⟩
  have mixed : ∀ key, mixKey key =
      xorShift (xorShift (xorShift key * 0xff51afd7ed558ccd) * 0xc4ceb9fe1a85ec53) :=
    fun _ => rfl
  have first : (0x4f74430c22a54005 : UInt64) * 0xff51afd7ed558ccd = 1 := by decide
  have second : (0x9cb4b2f8129337db : UInt64) * 0xc4ceb9fe1a85ec53 = 1 := by decide
  rw [mixed, xorShift_involutive, UInt64.mul_assoc, first, UInt64.mul_one, xorShift_involutive,
    UInt64.mul_assoc, second, UInt64.mul_one, xorShift_involutive]

/-- The table of the engine, with its own size and hash, can be used up. -/
theorem orderLayout_exhausts :
    ∃ calls : List OrderTableCall,
      (calls.foldl OrderTableCall.step (.create orderLayout OrderRef)).count = 0 ∧
      ∀ key value,
        ((calls.foldl OrderTableCall.step (.create orderLayout OrderRef)).put key value).2 =
          false := by
  refine exhausts fun i => ?_
  obtain ⟨key, mixed⟩ := mixKey_surjective (UInt64.ofNat i)
  refine ⟨key, Fin.ext ?_⟩
  have inside : i.val < 2097152 := i.isLt
  simp only [ProbeTable.position, orderLayout, mixed, UInt64.toNat_ofNat', Nat.add_zero]
  omega

/-- Four slots, probed from the key itself. -/
def fourSlots : ProbeLayout UInt64 := ⟨4, by decide, UInt64.toNat⟩

/-- Four orders come and go, one after the other; then comes a fifth. -/
def fourOrdersGone : List OrderTableCall :=
  [.put 0 {}, .erase 0, .put 1 {}, .erase 1, .put 2 {}, .erase 2, .put 3 {}, .erase 3]

/-- The fifth order is rejected by a table without a live order. -/
theorem order_table_serves_fails : ¬ ∀ (layout : ProbeLayout UInt64) (calls : List OrderTableCall),
    4 ≤ layout.size → (∃ bits, layout.size = 2 ^ bits) →
      Run.Along OrderTableCall.step Served (.create layout OrderRef) calls := by
  intro claimed
  have served := claimed fourSlots (fourOrdersGone ++ [.put 4 {}]) (by decide) ⟨2, rfl⟩
  have fifth := served.at_step
  exact absurd (fifth (by decide)) (by decide)

end OrderBookEngine
end FeedHandler
