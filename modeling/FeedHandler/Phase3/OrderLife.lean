import FeedHandler.Proto.Itch50
import Mathlib.Data.List.Nodup
import Mathlib.Data.List.Pairwise

/-! The life of orders as the exchange means it: orders enter with a symbol, a side and
shares, lose shares, leave, or are replaced by an order of the same symbol and side.
This is the yardstick for every book built from the feed. -/
namespace FeedHandler

structure LiveOrder where
  orderRef : UInt64
  symbol : SymbolKey
  side : Side
  price : UInt32
  remaining : UInt32
  deriving DecidableEq

inductive OrderAction where
  | enter (order : LiveOrder)
  | take (orderRef : UInt64) (shares : UInt32)
  | leave (orderRef : UInt64)
  | replace (orderRef newRef : UInt64) (shares price : UInt32)

/-- The order an add message brings in. -/
def AddOrder.order (add : AddOrder) : LiveOrder where
  orderRef := add.orderRef
  symbol := add.stock
  side := Itch50.decodeSide add.buySell
  price := add.price
  remaining := add.shares

/-- Executions and cancels take shares alike. -/
def ItchMessage.action : ItchMessage → OrderAction
  | addOrder _ add | addOrderMpid _ add _ => .enter add.order
  | orderExecuted _ orderRef shares _ | orderExecutedPrice _ orderRef shares _ _ _
  | orderCancel _ orderRef shares => .take orderRef shares
  | orderDelete _ orderRef => .leave orderRef
  | orderReplace _ orderRef newRef shares price => .replace orderRef newRef shares price

/-- What is left of an order after some shares are gone. -/
def LiveOrder.without (order : LiveOrder) (shares : UInt32) : Option LiveOrder :=
  if shares < order.remaining then some { order with remaining := order.remaining - shares }
  else none

/-- The replacement inherits symbol and side. -/
def LiveOrder.replacedBy (order : LiveOrder) (newRef : UInt64) (shares price : UInt32) :
    LiveOrder :=
  { order with orderRef := newRef, remaining := shares, price := price }

namespace OrderLife

def alter (live : List LiveOrder) (orderRef : UInt64) (change : LiveOrder → Option LiveOrder) :
    List LiveOrder :=
  live.filterMap fun order => if order.orderRef = orderRef then change order else some order

def step (live : List LiveOrder) : OrderAction → List LiveOrder
  | .enter order => order :: live
  | .take orderRef shares => alter live orderRef (·.without shares)
  | .leave orderRef => alter live orderRef fun _ => none
  | .replace orderRef newRef shares price =>
    alter live orderRef fun order => some (order.replacedBy newRef shares price)

def Fresh (live : List LiveOrder) (orderRef : UInt64) : Prop :=
  orderRef ≠ 0 ∧ orderRef.toNat < 2 ^ 56 ∧ ∀ order ∈ live, order.orderRef ≠ orderRef

/-- The actions that make a valid order life. -/
def Valid (live : List LiveOrder) : OrderAction → Prop
  | .enter order => Fresh live order.orderRef ∧ order.side ≠ .unknown ∧ 0 < order.remaining
  | .take orderRef shares =>
    ∃ order ∈ live, order.orderRef = orderRef ∧ shares ≤ order.remaining
  | .leave orderRef => ∃ order ∈ live, order.orderRef = orderRef
  | .replace orderRef newRef shares _ =>
    (∃ order ∈ live, order.orderRef = orderRef) ∧ Fresh live newRef ∧ 0 < shares

instance (live : List LiveOrder) (orderRef : UInt64) : Decidable (Fresh live orderRef) :=
  inferInstanceAs (Decidable (_ ∧ _ ∧ _))

instance (live : List LiveOrder) : (action : OrderAction) → Decidable (Valid live action)
  | .enter _ => inferInstanceAs (Decidable (_ ∧ _ ∧ _))
  | .take _ _ => inferInstanceAs (Decidable (∃ _, _ ∧ _))
  | .leave _ => inferInstanceAs (Decidable (∃ _, _ ∧ _))
  | .replace _ _ _ _ => inferInstanceAs (Decidable (_ ∧ _ ∧ _))

/-- The shares of an order as they count at one price of one side of one symbol. -/
def sharesAt (symbol : SymbolKey) (side : Side) (price : UInt32) (order : LiveOrder) : Nat :=
  if order.symbol = symbol ∧ order.side = side ∧ order.price = price then order.remaining.toNat
  else 0

/-- The sum of the remaining shares at one price. -/
def restingShares (live : List LiveOrder) (symbol : SymbolKey) (side : Side) (price : UInt32) :
    Nat :=
  (live.map (sharesAt symbol side price)).sum

/-- Live orders have distinct references, a side and shares left. -/
structure WellFormed (live : List LiveOrder) : Prop where
  distinct : (live.map (·.orderRef)).Nodup
  known : ∀ order ∈ live, order.side ≠ .unknown
  positive : ∀ order ∈ live, 0 < order.remaining

variable {live : List LiveOrder} {order : LiveOrder} {orderRef : UInt64}
  {change : LiveOrder → Option LiveOrder}

theorem mem_alter {after : LiveOrder} : after ∈ alter live orderRef change ↔
    (after ∈ live ∧ after.orderRef ≠ orderRef) ∨
      ∃ order ∈ live, order.orderRef = orderRef ∧ change order = some after := by
  simp only [alter, List.mem_filterMap]
  constructor
  · rintro ⟨before, member, result⟩
    split at result
    · next named => exact Or.inr ⟨before, member, named, result⟩
    · next other =>
      cases result
      exact Or.inl ⟨member, other⟩
  · rintro (⟨member, other⟩ | ⟨before, member, named, result⟩)
    · exact ⟨after, member, if_neg other⟩
    · exact ⟨before, member, by rw [if_pos named, result]⟩

theorem alter_absent (absent : ∀ order ∈ live, order.orderRef ≠ orderRef) :
    alter live orderRef change = live := by
  induction live with
  | nil => rfl
  | cons first rest ih =>
    have skipped : first.orderRef ≠ orderRef := absent first (by simp)
    simp only [alter, List.filterMap_cons, if_neg skipped]
    exact congrArg _ (ih fun order member => absent order (by simp [member]))

theorem alter_congr {second : LiveOrder → Option LiveOrder}
    (same : ∀ order ∈ live, order.orderRef = orderRef → change order = second order) :
    alter live orderRef change = alter live orderRef second := by
  apply List.filterMap_congr
  intro order member
  split
  · next named => exact same order member named
  · rfl

theorem WellFormed.eq_of_ref (formed : WellFormed live) {other : LiveOrder}
    (member : order ∈ live) (also : other ∈ live) (same : order.orderRef = other.orderRef) :
    order = other :=
  List.inj_on_of_nodup_map formed.distinct member also same

/-- A change of one order changes any total over the orders by that order's part. -/
theorem sum_alter (weight : LiveOrder → Nat) (change : LiveOrder → Option LiveOrder)
    (distinct : (live.map (·.orderRef)).Nodup) (member : order ∈ live) :
    ((alter live order.orderRef change).map weight).sum + weight order =
      (live.map weight).sum + ((change order).map weight).getD 0 := by
  induction live with
  | nil => cases member
  | cons first rest ih =>
    obtain ⟨unseen, distinctRest⟩ := List.nodup_cons.mp distinct
    rcases List.mem_cons.mp member with rfl | later
    · have absent : ∀ other ∈ rest, other.orderRef ≠ order.orderRef := by
        intro other inside same
        exact unseen (List.mem_map.mpr ⟨other, inside, same⟩)
      have others : alter rest order.orderRef change = rest := alter_absent absent
      simp only [alter] at others ⊢
      rw [List.filterMap_cons, if_pos rfl, others]
      cases change order with
      | none => simp [Nat.add_comm]
      | some after => simp; omega
    · have skipped : first.orderRef ≠ order.orderRef := by
        intro same
        exact unseen (List.mem_map.mpr ⟨order, later, same.symm⟩)
      have total := ih distinctRest later
      simp only [alter] at total ⊢
      rw [List.filterMap_cons, if_neg skipped]
      simp only [List.map_cons, List.sum_cons]
      omega

/-- References stay distinct when a changed order keeps its reference or gets one that
no order has. -/
theorem distinct_alter (distinct : (live.map (·.orderRef)).Nodup)
    (named : ∀ before, before.orderRef = orderRef → ∀ after, change before = some after →
      after.orderRef = orderRef ∨ ∀ other ∈ live, other.orderRef ≠ after.orderRef) :
    ((alter live orderRef change).map (·.orderRef)).Nodup := by
  have pairs := List.Pairwise.and_mem.mp (List.pairwise_map.mp distinct)
  refine List.pairwise_map.mpr (List.pairwise_filterMap.mpr (pairs.imp ?_))
  rintro a b ⟨memberA, memberB, apart⟩ a' resultA b' resultB
  split at resultA
  · next namedA =>
    split at resultB
    · next namedB => exact absurd (namedA.trans namedB.symm) apart
    · next otherB =>
      cases resultB
      rcases named a namedA a' resultA with kept | fresh
      · exact kept.trans_ne (Ne.symm otherB)
      · exact (fresh b memberB).symm
  · next otherA =>
    cases resultA
    split at resultB
    · next namedB =>
      rcases named b namedB b' resultB with kept | fresh
      · exact kept.symm ▸ otherA
      · exact fresh a memberA
    · cases resultB
      exact apart

theorem WellFormed.alter (formed : WellFormed live)
    (named : ∀ before, before.orderRef = orderRef → ∀ after, change before = some after →
      after.orderRef = orderRef ∨ ∀ other ∈ live, other.orderRef ≠ after.orderRef)
    (sided : ∀ before after, change before = some after → after.side = before.side)
    (filled : ∀ before after, change before = some after → 0 < after.remaining) :
    WellFormed (alter live orderRef change) where
  distinct := distinct_alter formed.distinct named
  known := by
    intro after member
    rcases mem_alter.mp member with ⟨before, _⟩ | ⟨before, present, _, result⟩
    · exact formed.known after before
    · exact sided before after result ▸ formed.known before present
  positive := by
    intro after member
    rcases mem_alter.mp member with ⟨before, _⟩ | ⟨before, present, _, result⟩
    · exact formed.positive after before
    · exact filled before after result

theorem without_eq_some {after : LiveOrder} {shares : UInt32}
    (result : order.without shares = some after) :
    shares < order.remaining ∧ after = { order with remaining := order.remaining - shares } := by
  simp only [LiveOrder.without] at result
  split at result
  · next more =>
    cases result
    exact ⟨more, rfl⟩
  · cases result

/-- An order leaves when all its shares are taken. -/
theorem leave_eq_take (formed : WellFormed live) (member : order ∈ live) :
    step live (.leave order.orderRef) =
      alter live order.orderRef (·.without order.remaining) := by
  apply alter_congr
  intro other present same
  obtain rfl := formed.eq_of_ref present member same
  simp [LiveOrder.without]

/-- A replacement exchanges the shares at the old price for those at the new one. -/
theorem resting_replaced (formed : WellFormed live) (member : order ∈ live) (newRef : UInt64)
    (shares price level : UInt32) :
    restingShares (alter live order.orderRef
          fun order => some (order.replacedBy newRef shares price)) order.symbol order.side level +
        (if order.price = level then order.remaining.toNat else 0) =
      restingShares live order.symbol order.side level +
        (if price = level then shares.toNat else 0) := by
  have total := sum_alter (sharesAt order.symbol order.side level)
    (fun order => some (order.replacedBy newRef shares price)) formed.distinct member
  simpa [restingShares, sharesAt, LiveOrder.replacedBy] using total

/-- A replacement that moves or resizes an order shows at its old price. -/
theorem resting_replaced_ne (formed : WellFormed live) (member : order ∈ live) (newRef : UInt64)
    {shares price : UInt32} (changing : order.price ≠ price ∨ order.remaining ≠ shares) :
    restingShares (alter live order.orderRef
          fun order => some (order.replacedBy newRef shares price))
        order.symbol order.side order.price ≠
      restingShares live order.symbol order.side order.price := by
  intro same
  have remains := UInt32.lt_iff_toNat_lt.mp (formed.positive order member)
  have total := resting_replaced formed member newRef shares price order.price
  simp only [if_true, UInt32.toNat_zero] at total remains
  rcases changing with moved | resized
  · rw [if_neg moved.symm] at total
    omega
  · have different : order.remaining.toNat ≠ shares.toNat := fun same =>
      resized (UInt32.toNat_inj.mp same)
    split at total <;> omega

/-- Taking nothing leaves every live order as it is. -/
theorem take_nothing (formed : WellFormed live) (orderRef : UInt64) :
    alter live orderRef (·.without 0) = live := by
  refine (List.filterMap_congr fun order member => ?_).trans List.filterMap_some
  have positive := formed.positive order member
  simp [LiveOrder.without, positive]

/-- Valid actions keep the live orders well formed. -/
theorem WellFormed.step (formed : WellFormed live) {action : OrderAction}
    (valid : Valid live action) : WellFormed (step live action) := by
  cases action with
  | enter order =>
    obtain ⟨⟨_, _, fresh⟩, known, positive⟩ := valid
    refine ⟨List.nodup_cons.mpr ⟨?_, formed.distinct⟩, ?_, ?_⟩
    · intro listed
      obtain ⟨other, member, same⟩ := List.mem_map.mp listed
      exact fresh other member same
    · exact List.forall_mem_cons.mpr ⟨known, formed.known⟩
    · exact List.forall_mem_cons.mpr ⟨positive, formed.positive⟩
  | take orderRef shares =>
    refine formed.alter ?_ ?_ ?_
    · intro before named after result
      obtain ⟨_, rfl⟩ := without_eq_some result
      exact Or.inl named
    · intro before after result
      obtain ⟨_, rfl⟩ := without_eq_some result
      rfl
    · intro before after result
      obtain ⟨more, rfl⟩ := without_eq_some result
      have less := UInt32.lt_iff_toNat_lt.mp more
      apply UInt32.lt_iff_toNat_lt.mpr
      rw [UInt32.toNat_sub_of_le _ _ (UInt32.le_of_lt more)]
      exact Nat.sub_pos_of_lt less
  | leave orderRef =>
    exact formed.alter (by simp) (by simp) (by simp)
  | replace orderRef newRef shares price =>
    obtain ⟨_, ⟨_, _, fresh⟩, positive⟩ := valid
    refine formed.alter ?_ ?_ ?_
    · rintro before named after ⟨⟩
      exact Or.inr fresh
    · rintro before after ⟨⟩
      rfl
    · rintro before after ⟨⟩
      exact positive

end OrderLife
end FeedHandler
