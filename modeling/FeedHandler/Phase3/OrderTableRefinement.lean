import FeedHandler.Lib.ProbeTableMap
import FeedHandler.Phase3.OrderTableSession

/-! The order table is a finite map from order keys to orders, over every session and
for any number of slots and any hash. The map follows the table's answers: it takes an
order exactly when the table does. -/
namespace FeedHandler

/-- A table, the map it stands for and the number of orders it refused. -/
structure MirroredTable (layout : ProbeLayout UInt64) where
  table : ProbeTable layout OrderRef
  orders : Finmap fun _ : UInt64 => OrderRef
  refused : Nat

namespace MirroredTable

variable {layout : ProbeLayout UInt64} {m : MirroredTable layout}

def create (layout : ProbeLayout UInt64) : MirroredTable layout where
  table := .create layout OrderRef
  orders := ∅
  refused := 0

def step (m : MirroredTable layout) : OrderTableCall → MirroredTable layout
  | .put key value =>
    let stored := m.table.put key value
    if stored.2 = true then { m with table := stored.1, orders := m.orders.insert key value }
    else { m with table := stored.1, refused := m.refused + 1 }
  | .find _ => m
  | .erase key => { m with table := m.table.erase key, orders := m.orders.erase key }

/-- The table answers as the map does and counts what it refused. -/
structure Agrees (m : MirroredTable layout) : Prop where
  represents : m.table.Represents m.orders
  refused : m.table.dropped = m.refused

theorem create_agrees : (create layout).Agrees :=
  ⟨ProbeTable.create_represents, rfl⟩

theorem dropped_erase (t : ProbeTable layout OrderRef) (key : UInt64) :
    (t.erase key).dropped = t.dropped := by
  simp only [ProbeTable.erase]
  split <;> rfl

theorem Agrees.step (agrees : m.Agrees) (call : OrderTableCall) : (m.step call).Agrees := by
  cases call with
  | put key value =>
    simp only [MirroredTable.step]
    split
    · next accepted =>
      exact ⟨agrees.represents.put accepted,
        (ProbeTable.put_accepted_dropped accepted).trans agrees.refused⟩
    · next rejected =>
      rw [ProbeTable.put_rejected (Bool.eq_false_iff.mpr rejected)]
      exact ⟨agrees.represents.of_slots rfl rfl, congrArg (· + 1) agrees.refused⟩
  | find key => exact agrees
  | erase key =>
    exact ⟨agrees.represents.erase key, (dropped_erase m.table key).trans agrees.refused⟩

theorem table_step (m : MirroredTable layout) (call : OrderTableCall) :
    (m.step call).table = OrderTableCall.step m.table call := by
  cases call with
  | put key value =>
    simp only [step, OrderTableCall.step]
    split <;> rfl
  | find key => rfl
  | erase key => rfl

theorem table_run (m : MirroredTable layout) (calls : List OrderTableCall) :
    (calls.foldl step m).table = calls.foldl OrderTableCall.step m.table := by
  induction calls generalizing m with
  | nil => rfl
  | cons call rest ih => rw [List.foldl_cons, List.foldl_cons, ih, table_step]

/-- After every session the table finds exactly the orders of the map, keeps one live slot
for each of its keys, counts its keys and counts the orders it refused. -/
theorem order_table_refines_map (layout : ProbeLayout UInt64) (calls : List OrderTableCall) :
    let t := calls.foldl OrderTableCall.step (.create layout OrderRef)
    let m := calls.foldl step (create layout)
    m.table = t ∧ (∀ key, t.find? key = m.orders.lookup key) ∧
      (∀ i j key v w, t.slots i = .live key v → t.slots j = .live key w → i = j) ∧
      t.count = m.orders.keys.card ∧ t.dropped = m.refused := by
  intro t m
  have same : m.table = t := table_run (create layout) calls
  have agrees : m.Agrees := Run.invariant (fun _ call kept => kept.step call) calls create_agrees
  rw [← same]
  exact ⟨rfl, agrees.represents.lookup, agrees.represents.sound.unique, agrees.represents.count,
    agrees.refused⟩

/-- Refused, then taken again: four slots once used up keep one order through its own slot. -/
example :
    let calls := OrderBookEngine.fourOrdersGone.take 6 ++
      [.put 3 {}, .put 4 {}, .put 3 { qty := 7 }, .find 3]
    let m := calls.foldl step (create OrderBookEngine.fourSlots)
    (m.table.find? 3).map OrderRef.qty = some 7 ∧ m.table.count = 1 ∧ m.refused = 1 := by
  decide

end MirroredTable
end FeedHandler
