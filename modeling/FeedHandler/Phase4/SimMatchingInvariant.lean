import FeedHandler.Lib.PriorityAllocation
import FeedHandler.Phase4.SimMatchingEngine

/-! What the operations of the simulated engine do to the orders that rest in it, and the
invariant they keep. -/
namespace FeedHandler

open PriorityAllocation

namespace SimMatchingEngine

/-- The orders that rest on one side of a symbol; a missing book has none. -/
def orders (e : SimMatchingEngine) (symbol : UInt64) (side : OrderSide) : List SimOrder :=
  ((e.books symbol).getD {}).side side

def SideSorts.sort (sorts : SideSorts) : OrderSide → List SimOrder → List SimOrder
  | .buy => sorts.bids.sort
  | .sell => sorts.asks.sort

theorem SideSorts.sort_perm (sorts : SideSorts) (side : OrderSide) (l : List SimOrder) :
    (sorts.sort side l).Perm l :=
  match side with
  | .buy => sorts.bids.perm l
  | .sell => sorts.asks.perm l

theorem SideSorts.sort_ordered (sorts : SideSorts) (side : OrderSide) (l : List SimOrder) :
    KWayMerge.Ordered (better side) (sorts.sort side l) :=
  match side with
  | .buy => sorts.bids.ordered l
  | .sell => sorts.asks.ordered l

/-- The order is within reach of a print at the price. -/
def reaches (side : OrderSide) (tradePrice : Int) (o : SimOrder) : Bool :=
  match side with
  | .buy => tradePrice ≤ o.price
  | .sell => o.price ≤ tradePrice

/-- The side of the private book that a tape event can fill. -/
def printSide (ev : BookEvent) (budget : Nat) : Option OrderSide :=
  if isPrint ev.type = true ∧ ev.qty ≠ 0 ∧ budget ≠ 0 then
    match ev.side with
    | .sell => some .buy
    | .buy => some .sell
    | .unknown => none
  else none

variable {e : SimMatchingEngine} {sorts : SideSorts} {symbol key : UInt64} {side other : OrderSide}
  {o : SimOrder} {ev : BookEvent} {budget : Nat}

theorem bindOrderSymbol_orders (id : Nat) :
    (e.bindOrderSymbol id symbol).orders key side = e.orders key side := by
  simp only [bindOrderSymbol]
  split <;> rfl

theorem enter_side (sorts : SideSorts) (book : SymbolBook) (o : SimOrder) (side : OrderSide) :
    (enter sorts book o).side side =
      if side = o.side then sorts.sort side (book.side side ++ [o]) else book.side side := by
  cases same : o.side <;> cases side <;> simp [enter, same, SymbolBook.side, SideSorts.sort]

/-- Binding and submitting an order puts it into the book of its symbol. -/
theorem place_orders {price : Int} {qty id : Nat} {tsNs : UInt64} (nonzero : id ≠ 0)
    (sized : qty ≠ 0) :
    (submit sorts (e.bindOrderSymbol id symbol) side price qty id tsNs).orders key other =
      if key = symbol ∧ other = side then
        sorts.sort side (e.orders symbol side ++ [⟨id, side, price, qty, tsNs⟩])
      else e.orders key other := by
  have usable : ¬ (id = 0 ∨ qty = 0) := not_or.mpr ⟨nonzero, sized⟩
  have bound : e.bindOrderSymbol id symbol =
      { e with orderToSymbol := Function.update e.orderToSymbol id (some symbol) } :=
    if_neg nonzero
  simp only [submit, if_neg usable, bound, Function.update_self, orders]
  by_cases here : key = symbol
  · subst here
    rw [Function.update_self, Option.getD_some, enter_side]
    by_cases same : other = side
    · subst same
      simp
    · simp [same]
  · simp [here]

theorem place_bound {price : Int} {qty id : Nat} {tsNs : UInt64} (nonzero : id ≠ 0)
    (sized : qty ≠ 0) :
    (submit sorts (e.bindOrderSymbol id symbol) side price qty id tsNs).orderToSymbol =
      Function.update e.orderToSymbol id (some symbol) := by
  have usable : ¬ (id = 0 ∨ qty = 0) := not_or.mpr ⟨nonzero, sized⟩
  have bound : e.bindOrderSymbol id symbol =
      { e with orderToSymbol := Function.update e.orderToSymbol id (some symbol) } :=
    if_neg nonzero
  simp only [submit, if_neg usable, bound, Function.update_self]

/-- What a print reports of an order that is given a quantity. -/
def fillOf (side : OrderSide) (tradePrice : Int) (tsNs : UInt64) (given : SimOrder × Nat) :
    Option Fill :=
  if 0 < given.2 then
    some ⟨given.1.orderId, side, tradePrice, given.2, tsNs, given.2 < given.1.qty⟩
  else none

/-- What is left of an order that is given a quantity. -/
def leftOf (given : SimOrder × Nat) : Option SimOrder :=
  if given.1.qty - given.2 = 0 then none else some { given.1 with qty := given.1.qty - given.2 }

/-- The orders of a side with what a print gives them. -/
def shares (side : OrderSide) (tradePrice : Int) (l : List SimOrder) (budget : Nat) :
    List (SimOrder × Nat) := allocate SimOrder.qty (reaches side tradePrice) l budget

/-- The symbols still bound once the filled orders are erased. -/
def unbind (bound : Nat → Option UInt64) (given : List (SimOrder × Nat)) (id : Nat) :
    Option UInt64 :=
  if ∃ p ∈ given, p.1.orderId = id ∧ p.1.qty ≤ p.2 then none else bound id

theorem zero_shares {l : List SimOrder} (sized : ∀ o ∈ l, 0 < o.qty) (side : OrderSide)
    (tradePrice : Int) (tsNs : UInt64) (bound : Nat → Option UInt64) :
    (l.map (fun o => (o, 0))).filterMap (fillOf side tradePrice tsNs) = [] ∧
      (l.map (fun o => (o, 0))).filterMap leftOf = l ∧
      unbind bound (l.map (fun o => (o, 0))) = bound := by
  refine ⟨?_, ?_, ?_⟩
  · rw [List.filterMap_map]
    exact List.filterMap_eq_nil_iff.mpr fun _ _ => rfl
  · rw [List.filterMap_map]
    have kept : ∀ o ∈ l, (leftOf ∘ fun o => (o, 0)) o = some o := fun o member =>
      if_neg (Nat.pos_iff_ne_zero.mp (sized o member))
    rw [List.filterMap_congr kept, List.filterMap_some]
  · funext id
    refine if_neg ?_
    rintro ⟨p, member, -, filled⟩
    obtain ⟨o, held, rfl⟩ := List.mem_map.mp member
    exact absurd (sized o held) (by simpa using filled)

theorem unbind_filled {given : List (SimOrder × Nat)} {p : SimOrder × Nat}
    (filled : p.1.qty ≤ p.2) (bound : Nat → Option UInt64) :
    unbind bound (p :: given) = unbind (Function.update bound p.1.orderId none) given := by
  funext id
  simp only [unbind, List.exists_mem_cons_iff, filled, and_true]
  by_cases later : ∃ q ∈ given, q.1.orderId = id ∧ q.1.qty ≤ q.2
  · rw [if_pos later, if_pos (Or.inr later)]
  · rw [if_neg later]
    by_cases here : p.1.orderId = id
    · rw [if_pos (Or.inl here), ← here, Function.update_self]
    · rw [if_neg (not_or.mpr ⟨here, later⟩), Function.update_of_ne (Ne.symm here)]

theorem unbind_left {given : List (SimOrder × Nat)} {p : SimOrder × Nat}
    (left : ¬ p.1.qty ≤ p.2) (bound : Nat → Option UInt64) :
    unbind bound (p :: given) = unbind bound given := by
  funext id
  simp only [unbind, List.exists_mem_cons_iff, left, and_false, false_or]

/-- One pass over a side shares the budget out in the order of the list. -/
theorem fillOrders_eq (side : OrderSide) (tradePrice : Int) (tsNs : UInt64) {l : List SimOrder}
    (sized : ∀ o ∈ l, 0 < o.qty) (budget : Nat) (bound : Nat → Option UInt64) :
    let pass := fillOrders side (fun o => !reaches side tradePrice o) tradePrice tsNs l budget bound
    let given := shares side tradePrice l budget
    pass.fills = given.filterMap (fillOf side tradePrice tsNs) ∧
      pass.resting = given.filterMap leftOf ∧ pass.orderToSymbol = unbind bound given := by
  induction l generalizing budget bound with
  | nil =>
    refine ⟨rfl, rfl, ?_⟩
    funext id
    simp [unbind, shares, allocate, fillOrders]
  | cons o rest ih =>
    have later : ∀ o ∈ rest, 0 < o.qty := fun o member => sized o (List.mem_cons_of_mem _ member)
    have positive := sized o List.mem_cons_self
    simp only [fillOrders, shares, allocate, Bool.not_eq_true']
    by_cases shut : budget = 0 ∨ reaches side tradePrice o = false
    · obtain ⟨fills, resting, unbound⟩ := zero_shares sized side tradePrice tsNs bound
      rw [if_pos shut, if_pos shut]
      exact ⟨fills.symm, resting.symm, unbound.symm⟩
    · have served : 0 < min o.qty budget := by
        have budget_pos := Nat.pos_of_ne_zero (not_or.mp shut).1
        omega
      have reported : fillOf side tradePrice tsNs (o, min o.qty budget) =
          some ⟨o.orderId, side, tradePrice, min o.qty budget, tsNs, min o.qty budget < o.qty⟩ :=
        if_pos served
      rw [if_neg shut, if_neg shut, List.filterMap_cons_some reported]
      by_cases filled : o.qty - min o.qty budget = 0
      · obtain ⟨fills, resting, unbound⟩ := ih later (budget - min o.qty budget)
          (Function.update bound o.orderId none)
        have gone : leftOf (o, min o.qty budget) = none := if_pos filled
        rw [if_pos filled, List.filterMap_cons_none gone, unbind_filled (by simp; omega)]
        refine ⟨?_, resting, unbound⟩
        rw [if_pos served, fills]
        rfl
      · obtain ⟨fills, resting, unbound⟩ := ih later (budget - min o.qty budget) bound
        have kept : leftOf (o, min o.qty budget) =
            some { o with qty := o.qty - min o.qty budget } := if_neg filled
        rw [if_neg filled, List.filterMap_cons_some kept, unbind_left (by simp; omega)]
        refine ⟨?_, ?_, unbound⟩
        · rw [if_pos served, fills]
          rfl
        · rw [resting]
          rfl

/-- The shares of a print among the orders it can fill. -/
def given (e : SimMatchingEngine) (side : OrderSide) (ev : BookEvent) (budget : Nat) :
    List (SimOrder × Nat) :=
  shares side ev.price.toNat (e.orders ev.symbol.asU64 side) budget

theorem outOfReach_bids (tradePrice : Int) :
    (fun o : SimOrder => decide (o.price < tradePrice)) = fun o => !reaches .buy tradePrice o := by
  funext o
  simp only [reaches, ← decide_not, not_le]

theorem outOfReach_asks (tradePrice : Int) :
    (fun o : SimOrder => decide (o.price > tradePrice)) = fun o => !reaches .sell tradePrice o := by
  funext o
  simp only [reaches, ← decide_not, not_le, gt_iff_lt]

/-- Prints of an unknown side and events that are no print do nothing. -/
theorem onMarketEvent_idle (none : printSide ev budget = none) :
    e.onMarketEvent ev budget = (e, []) := by
  simp only [onMarketEvent, printSide] at none ⊢
  by_cases print : isPrint ev.type = true
  · rw [if_pos print]
    cases e.books ev.symbol.asU64 with
    | none => rfl
    | some book =>
      by_cases void : ev.qty = 0 ∨ budget = 0
      · simp only [if_pos void]
      · rw [if_pos ⟨print, (not_or.mp void).1, (not_or.mp void).2⟩] at none
        cases direction : ev.side with
        | buy => rw [direction] at none; cases none
        | sell => rw [direction] at none; cases none
        | unknown => simp only [if_neg void]
  · rw [if_neg print]

/-- A tape event fills a side if it is a print with a quantity and a budget, from the other
side of the tape. -/
theorem printSide_eq_some : printSide ev budget = some side ↔
    (isPrint ev.type = true ∧ ev.qty ≠ 0 ∧ budget ≠ 0) ∧
      (ev.side = .sell ∧ side = .buy ∨ ev.side = .buy ∧ side = .sell) := by
  simp only [printSide]
  split
  · next print =>
    cases direction : ev.side <;> cases side <;> simp [print]
  · next idle => simp [idle]

theorem unbind_nil (bound : Nat → Option UInt64) : unbind bound [] = bound := by
  funext id
  simp [unbind]

/-- A print shares its budget among the orders of the side it can fill. -/
theorem onMarketEvent_fills (sized : ∀ o ∈ e.orders ev.symbol.asU64 side, 0 < o.qty)
    (fills : printSide ev budget = some side) :
    let after := e.onMarketEvent ev budget
    let given := e.given side ev budget
    after.2 = given.filterMap (fillOf side ev.price.toNat ev.exchangeTsNs) ∧
      after.1.orderToSymbol = unbind e.orderToSymbol given ∧
      ∀ key other, after.1.orders key other =
        if key = ev.symbol.asU64 ∧ other = side then given.filterMap leftOf
        else e.orders key other := by
  obtain ⟨⟨print, quantity, spend⟩, direction⟩ := printSide_eq_some.mp fills
  have live : ¬ (ev.qty = 0 ∨ budget = 0) := not_or.mpr ⟨quantity, spend⟩
  simp only [onMarketEvent, if_pos print]
  cases held : e.books ev.symbol.asU64 with
  | none =>
    have empty : e.orders ev.symbol.asU64 side = [] := by
      rw [orders, held]
      cases side <;> rfl
    have nothing : e.given side ev budget = [] := by
      rw [given, empty]
      rfl
    rw [nothing, unbind_nil]
    refine ⟨rfl, rfl, fun key other => ?_⟩
    by_cases here : key = ev.symbol.asU64 ∧ other = side
    · rw [if_pos here, here.1, here.2]
      exact empty
    · rw [if_neg here]
  | some book =>
    have own : e.orders ev.symbol.asU64 side = book.side side := by
      rw [orders, held, Option.getD_some]
    rw [own] at sized
    obtain ⟨reported, resting, unbound⟩ :=
      fillOrders_eq side ev.price.toNat ev.exchangeTsNs sized budget e.orderToSymbol
    simp only [if_neg live]
    rcases direction with ⟨sell, rfl⟩ | ⟨buy, rfl⟩
    · simp only [sell, fillBids, outOfReach_bids, given, own]
      refine ⟨reported, unbound, fun key other => ?_⟩
      by_cases here : key = ev.symbol.asU64
      · subst here
        cases other with
        | buy => simpa [orders, SymbolBook.side] using resting
        | sell => simp [orders, SymbolBook.side, held]
      · simp [orders, here]
    · simp only [buy, fillAsks, outOfReach_asks, given, own]
      refine ⟨reported, unbound, fun key other => ?_⟩
      by_cases here : key = ev.symbol.asU64
      · subst here
        cases other with
        | buy => simp [orders, SymbolBook.side, held]
        | sell => simpa [orders, SymbolBook.side] using resting
      · simp [orders, here]

theorem mem_leftOf {given : List (SimOrder × Nat)} :
    o ∈ given.filterMap leftOf ↔
      ∃ p ∈ given, p.2 < p.1.qty ∧ o = { p.1 with qty := p.1.qty - p.2 } := by
  rw [List.mem_filterMap]
  refine exists_congr fun p => and_congr_right fun _ => ?_
  simp only [leftOf]
  split
  · next filled =>
    refine iff_of_false (fun found => by cases found) (fun left => ?_)
    omega
  · next left =>
    rw [Option.some.injEq, eq_comm, and_iff_right (by omega)]

theorem map_fst_given (e : SimMatchingEngine) (side : OrderSide) (ev : BookEvent) (budget : Nat) :
    (e.given side ev budget).map Prod.fst = e.orders ev.symbol.asU64 side :=
  map_fst_allocate ..

theorem mem_of_given {p : SimOrder × Nat} (served : p ∈ e.given side ev budget) :
    p.1 ∈ e.orders ev.symbol.asU64 side := mem_of_allocate served

theorem exists_given (resting : o ∈ e.orders ev.symbol.asU64 side) :
    ∃ n, (o, n) ∈ e.given side ev budget := by
  rw [← map_fst_given e side ev budget] at resting
  obtain ⟨⟨o, n⟩, served, rfl⟩ := List.mem_map.mp resting
  exact ⟨n, served⟩

/-- A relation that does not look at quantities holds on among the orders that are left. -/
theorem leftOf_pairwise {R : SimOrder → SimOrder → Prop}
    (blind : ∀ o p n m, R o p → R { o with qty := n } { p with qty := m })
    (held : (e.orders ev.symbol.asU64 side).Pairwise R) :
    ((e.given side ev budget).filterMap leftOf).Pairwise R := by
  rw [← map_fst_given e side ev budget, List.pairwise_map] at held
  refine List.pairwise_filterMap.mpr (held.imp fun {p q} related o left r right => ?_)
  simp only [leftOf] at left right
  split at left <;> split at right <;> cases left <;> cases right
  exact blind _ _ _ _ related

/-- The engine's own invariant: every resting order has a quantity, is bound to the symbol it
rests under, and rests once; each side stands in the order of its comparison. -/
structure Sound (e : SimMatchingEngine) : Prop where
  sized : ∀ symbol side, ∀ o ∈ e.orders symbol side, 0 < o.qty
  bound : ∀ symbol side, ∀ o ∈ e.orders symbol side, e.orderToSymbol o.orderId = some symbol
  sided : ∀ symbol side, ∀ o ∈ e.orders symbol side, o.side = side
  distinct : ∀ symbol side, ((e.orders symbol side).map SimOrder.orderId).Nodup
  apart : ∀ symbol, ∀ o ∈ e.orders symbol .buy, ∀ p ∈ e.orders symbol .sell,
    o.orderId ≠ p.orderId
  ordered : ∀ symbol side, KWayMerge.Ordered (better side) (e.orders symbol side)

/-- No resting order has the id. -/
def Absent (e : SimMatchingEngine) (id : Nat) : Prop :=
  ∀ symbol side, ∀ o ∈ e.orders symbol side, o.orderId ≠ id

theorem initial_orders : ({} : SimMatchingEngine).orders symbol side = [] := by
  cases side <;> rfl

theorem initial_sound : Sound {} := by
  constructor <;> intros <;> simp_all [initial_orders, KWayMerge.Ordered]

/-- Orders with one id are one order, in one place. -/
theorem Sound.unique (sound : Sound e) {p : SimOrder} (first : o ∈ e.orders symbol side)
    (second : p ∈ e.orders key other) (same : o.orderId = p.orderId) :
    symbol = key ∧ side = other ∧ o = p := by
  have place : symbol = key := Option.some.inj
    ((sound.bound _ _ _ first).symm.trans (same ▸ sound.bound _ _ _ second))
  subst place
  have sides : side = other := by
    cases side <;> cases other
    · rfl
    · exact absurd same (sound.apart _ _ first _ second)
    · exact absurd same.symm (sound.apart _ _ second _ first)
    · rfl
  subst sides
  refine ⟨rfl, rfl, ?_⟩
  exact List.inj_on_of_nodup_map (sound.distinct symbol side) first second same

section Place

variable {price : Int} {qty id : Nat} {tsNs : UInt64}

theorem mem_place (nonzero : id ≠ 0) (sized : qty ≠ 0) :
    o ∈ (submit sorts (e.bindOrderSymbol id symbol) side price qty id tsNs).orders key other ↔
      o ∈ e.orders key other ∨
        (key = symbol ∧ other = side ∧ o = ⟨id, side, price, qty, tsNs⟩) := by
  rw [place_orders nonzero sized]
  by_cases here : key = symbol ∧ other = side
  · rw [if_pos here, (sorts.sort_perm _ _).mem_iff, List.mem_append, List.mem_singleton, here.1,
      here.2]
    simp
  · rw [if_neg here]
    exact ⟨Or.inl, fun either => either.resolve_right fun new => here ⟨new.1, new.2.1⟩⟩

theorem Sound.place (sound : Sound e) (absent : e.Absent id) (nonzero : id ≠ 0) (sized : qty ≠ 0) :
    Sound (submit sorts (e.bindOrderSymbol id symbol) side price qty id tsNs) where
  sized := by
    intro key other o member
    rcases (mem_place nonzero sized).mp member with old | ⟨-, -, rfl⟩
    · exact sound.sized key other o old
    · exact Nat.pos_of_ne_zero sized
  bound := by
    intro key other o member
    rw [place_bound nonzero sized]
    rcases (mem_place nonzero sized).mp member with old | ⟨rfl, -, rfl⟩
    · rw [Function.update_of_ne (absent key other o old)]
      exact sound.bound key other o old
    · exact Function.update_self ..
  sided := by
    intro key other o member
    rcases (mem_place nonzero sized).mp member with old | ⟨-, rfl, rfl⟩
    · exact sound.sided key other o old
    · rfl
  distinct := by
    intro key other
    rw [place_orders nonzero sized]
    split
    · refine ((sorts.sort_perm _ _).map _).nodup_iff.mpr ?_
      rw [List.map_append]
      refine List.nodup_append.mpr ⟨sound.distinct symbol side, List.nodup_singleton _, ?_⟩
      intro old member new single same
      obtain ⟨o, held, rfl⟩ := List.mem_map.mp member
      rw [List.map_singleton, List.mem_singleton] at single
      exact absent symbol side o held (same.trans single)
    · exact sound.distinct key other
  apart := by
    intro key o bid p ask same
    rcases (mem_place nonzero sized).mp bid with old | ⟨-, buys, rfl⟩ <;>
      rcases (mem_place nonzero sized).mp ask with held | ⟨-, sells, rfl⟩
    · exact sound.apart key o old p held same
    · exact absent key .buy o old same
    · exact absent key .sell p held same.symm
    · rw [← buys] at sells
      cases sells
  ordered := by
    intro key other
    rw [place_orders nonzero sized]
    split
    · next here =>
      rw [here.2]
      exact sorts.sort_ordered _ _
    · exact sound.ordered key other

end Place

section Cancel

variable {id : Nat}

theorem removeOrder_side (book : SymbolBook) (id : Nat) (side : OrderSide) :
    (removeOrder book id).side side = (book.side side).filter (fun o => o.orderId ≠ id) := by
  cases side <;> rfl

/-- A cancel takes the order out, wherever it rests. -/
theorem cancel_orders (sound : Sound e) (id : Nat) (symbol : UInt64) (side : OrderSide) :
    (e.cancel id).orders symbol side =
      (e.orders symbol side).filter (fun o => o.orderId ≠ id) := by
  have elsewhere : e.orderToSymbol id ≠ some symbol →
      (e.orders symbol side).filter (fun o => o.orderId ≠ id) = e.orders symbol side := by
    intro unbound
    refine List.filter_eq_self.mpr fun o member => decide_eq_true ?_
    rintro rfl
    exact unbound (sound.bound symbol side o member)
  simp only [cancel]
  cases bound : e.orderToSymbol id with
  | none => exact (elsewhere (by simp [bound])).symm
  | some key =>
    by_cases here : symbol = key
    · subst here
      cases held : e.books symbol with
      | none =>
        have empty : e.orders symbol side = [] := by
          rw [orders, held]
          cases side <;> rfl
        simp only [held, empty, List.filter_nil]
      | some book =>
        simp only [orders, Function.update_self, Option.getD_some, removeOrder_side, held]
    · have apart : e.orderToSymbol id ≠ some symbol := by simp [bound, Ne.symm here]
      rw [elsewhere apart]
      cases held : e.books key with
      | none => simp only [held]
      | some book => simp only [held, orders, Function.update_of_ne here]

theorem cancel_bound {other : Nat} (differs : other ≠ id) :
    (e.cancel id).orderToSymbol other = e.orderToSymbol other := by
  simp only [cancel]
  split
  · rfl
  · split
    · rfl
    · exact Function.update_of_ne differs ..

theorem mem_cancel (sound : Sound e) :
    o ∈ (e.cancel id).orders symbol side ↔ o ∈ e.orders symbol side ∧ o.orderId ≠ id := by
  rw [cancel_orders sound, List.mem_filter, decide_eq_true_iff]

theorem Sound.cancel (sound : Sound e) (id : Nat) : Sound (e.cancel id) where
  sized := fun symbol side o member => sound.sized symbol side o ((mem_cancel sound).mp member).1
  bound := by
    intro symbol side o member
    obtain ⟨held, other⟩ := (mem_cancel sound).mp member
    rw [cancel_bound other]
    exact sound.bound symbol side o held
  sided := fun symbol side o member => sound.sided symbol side o ((mem_cancel sound).mp member).1
  distinct := by
    intro symbol side
    rw [cancel_orders sound]
    exact (sound.distinct symbol side).sublist (List.filter_sublist.map _)
  apart := fun symbol o bid p ask =>
    sound.apart symbol o ((mem_cancel sound).mp bid).1 p ((mem_cancel sound).mp ask).1
  ordered := by
    intro symbol side
    rw [cancel_orders sound]
    exact (sound.ordered symbol side).sublist List.filter_sublist

theorem absent_cancel (sound : Sound e) (id : Nat) : (e.cancel id).Absent id :=
  fun _ _ _ member => ((mem_cancel sound).mp member).2

end Cancel

section Print

/-- Where an order rests after a print: it was not reached, or it keeps a quantity. -/
theorem mem_print (sound : Sound e) (fills : printSide ev budget = some side) :
    o ∈ (e.onMarketEvent ev budget).1.orders key other ↔
      if key = ev.symbol.asU64 ∧ other = side then
        ∃ p ∈ e.given side ev budget, p.2 < p.1.qty ∧ o = { p.1 with qty := p.1.qty - p.2 }
      else o ∈ e.orders key other := by
  rw [(onMarketEvent_fills (sound.sized _ _) fills).2.2 key other]
  split
  · exact mem_leftOf
  · exact Iff.rfl

/-- A print gives one share to an id. -/
theorem given_unique (sound : Sound e) {p q : SimOrder × Nat} (first : p ∈ e.given side ev budget)
    (second : q ∈ e.given side ev budget) (same : p.1.orderId = q.1.orderId) : p = q := by
  have nodup : ((e.given side ev budget).map (fun p => p.1.orderId)).Nodup := by
    have distinct := sound.distinct ev.symbol.asU64 side
    rwa [← map_fst_given e side ev budget, List.map_map] at distinct
  exact List.inj_on_of_nodup_map nodup first second same

/-- Whatever rests after a print rested before it, with at least that quantity. -/
theorem exists_of_mem_print (sound : Sound e)
    (member : o ∈ (e.onMarketEvent ev budget).1.orders key other) :
    ∃ p ∈ e.orders key other, 0 < o.qty ∧ o.qty ≤ p.qty ∧ o = { p with qty := o.qty } := by
  cases fills : printSide ev budget with
  | none =>
    rw [onMarketEvent_idle fills] at member
    exact ⟨o, member, sound.sized _ _ o member, le_refl _, rfl⟩
  | some side =>
    have left := (mem_print sound fills).mp member
    split at left
    · next here =>
      obtain ⟨p, served, keeps, rfl⟩ := left
      refine ⟨p.1, ?_, Nat.sub_pos_of_lt keeps, Nat.sub_le _ _, rfl⟩
      rw [here.1, here.2]
      exact mem_of_given served
    · exact ⟨o, left, sound.sized _ _ o left, le_refl _, rfl⟩

theorem Sound.print (sound : Sound e) (ev : BookEvent) (budget : Nat) :
    Sound (e.onMarketEvent ev budget).1 := by
  cases fills : printSide ev budget with
  | none =>
    rw [onMarketEvent_idle fills]
    exact sound
  | some face =>
    obtain ⟨-, unbound, after⟩ := onMarketEvent_fills (sound.sized _ _) fills
    have pairwise : ∀ {R : SimOrder → SimOrder → Prop} (key : UInt64) (other : OrderSide),
        (∀ o p n m, R o p → R { o with qty := n } { p with qty := m }) →
        (e.orders key other).Pairwise R →
        ((e.onMarketEvent ev budget).1.orders key other).Pairwise R := by
      intro R key other blind held
      rw [after]
      split
      · next here =>
        rw [here.1, here.2] at held
        exact leftOf_pairwise blind held
      · exact held
    constructor
    · intro key other o member
      exact (exists_of_mem_print sound member).choose_spec.2.1
    · intro key other o member
      have was : e.orderToSymbol o.orderId = some key := by
        obtain ⟨p, held, -, -, same⟩ := exists_of_mem_print sound member
        rw [same]
        exact sound.bound key other p held
      rw [unbound, unbind, was]
      refine if_neg ?_
      rintro ⟨p, served, same, filled⟩
      have left := (mem_print sound fills).mp member
      split at left
      · obtain ⟨q, kept, keeps, rfl⟩ := left
        rw [given_unique sound kept served same.symm] at keeps
        omega
      · next elsewhere =>
        obtain ⟨place, sides, -⟩ := sound.unique left (mem_of_given served) same.symm
        exact elsewhere ⟨place, sides⟩
    · intro key other o member
      obtain ⟨p, held, -, -, same⟩ := exists_of_mem_print sound member
      rw [same]
      exact sound.sided key other p held
    · intro key other
      rw [List.Nodup, List.pairwise_map]
      exact pairwise key other (fun _ _ _ _ differ => differ)
        (List.pairwise_map.mp (sound.distinct key other))
    · intro key o bid p ask
      obtain ⟨q, held, -, -, same⟩ := exists_of_mem_print sound bid
      obtain ⟨r, kept, -, -, alike⟩ := exists_of_mem_print sound ask
      rw [same, alike]
      exact sound.apart key q held r kept
    · intro key other
      refine pairwise key other (fun _ _ _ _ differ => ?_) (sound.ordered key other)
      cases other <;> exact differ

theorem fills_of_others {l : List (SimOrder × Nat)} {id : Nat} (side : OrderSide)
    (tradePrice : Int) (tsNs : UInt64) (others : ∀ p ∈ l, p.1.orderId ≠ id) :
    (l.filterMap (fillOf side tradePrice tsNs)).filter (fun f => f.orderId = id) = [] := by
  refine List.filter_eq_nil_iff.mpr fun f member => ?_
  obtain ⟨p, held, made⟩ := List.mem_filterMap.mp member
  simp only [fillOf] at made
  split at made
  · cases made
    simpa using others p held
  · cases made

/-- Every fill of a print is the share of an order on the side it can fill. -/
theorem mem_fills (sound : Sound e) {f : Fill} (reported : f ∈ (e.onMarketEvent ev budget).2) :
    ∃ face, printSide ev budget = some face ∧ ∃ p ∈ e.given face ev budget, 0 < p.2 ∧
      f = ⟨p.1.orderId, face, ev.price.toNat, p.2, ev.exchangeTsNs, p.2 < p.1.qty⟩ := by
  cases fills : printSide ev budget with
  | none =>
    rw [onMarketEvent_idle fills] at reported
    cases reported
  | some face =>
    rw [(onMarketEvent_fills (sound.sized _ _) fills).1] at reported
    obtain ⟨p, served, made⟩ := List.mem_filterMap.mp reported
    simp only [fillOf] at made
    split at made
    · next positive =>
      cases made
      exact ⟨face, rfl, p, served, positive, rfl⟩
    · cases made

/-- An order that the print can fill: its share is its fill, and what it keeps rests on. -/
theorem print_served (sound : Sound e) {n : Nat} (fills : printSide ev budget = some side)
    (served : (o, n) ∈ e.given side ev budget) :
    let after := e.onMarketEvent ev budget
    after.2.filter (fun f => f.orderId = o.orderId) =
        (fillOf side ev.price.toNat ev.exchangeTsNs (o, n)).toList ∧
      (n < o.qty → { o with qty := o.qty - n } ∈ after.1.orders ev.symbol.asU64 side) ∧
      (n = o.qty → after.1.Absent o.orderId) := by
  refine ⟨?_, fun keeps => ?_, ?_⟩
  · obtain ⟨front, back, whole⟩ := List.append_of_mem served
    have others : ∀ p ∈ front ++ back, p.1.orderId ≠ o.orderId := by
      have distinct := sound.distinct ev.symbol.asU64 side
      rw [← map_fst_given e side ev budget, whole, List.map_map, List.map_append, List.map_cons,
        List.nodup_middle, ← List.map_append] at distinct
      exact fun p member same => (List.nodup_cons.mp distinct).1
        (List.mem_map.mpr ⟨p, member, same⟩)
    have before := fills_of_others side ev.price.toNat ev.exchangeTsNs
      fun p member => others p (List.mem_append_left back member)
    have later := fills_of_others side ev.price.toNat ev.exchangeTsNs
      fun p member => others p (List.mem_append_right front member)
    rw [(onMarketEvent_fills (sound.sized _ _) fills).1, whole, List.filterMap_append,
      List.filter_append, before, List.nil_append, List.filterMap_cons]
    cases own : fillOf side ev.price.toNat ev.exchangeTsNs (o, n) with
    | none => exact later
    | some f =>
      have mine : f.orderId = o.orderId := by
        simp only [fillOf] at own
        split at own <;> cases own
        rfl
      simp only [List.filter_cons, mine, decide_true, if_true, later, Option.toList_some]
  · refine (mem_print sound fills).mpr ?_
    rw [if_pos ⟨rfl, rfl⟩]
    exact ⟨(o, n), served, keeps, rfl⟩
  · rintro full key other p member same
    have left := (mem_print sound fills).mp member
    split at left
    · obtain ⟨q, kept, keeps, rfl⟩ := left
      rw [given_unique sound kept served same] at keeps
      exact absurd full (by simpa using Nat.ne_of_lt keeps)
    · next elsewhere =>
      obtain ⟨place, sides, -⟩ := sound.unique left (mem_of_given served) same
      exact elsewhere ⟨place, sides⟩

/-- An order out of the print's reach stays as it is. -/
theorem print_apart (sound : Sound e) (resting : o ∈ e.orders key other)
    (apart : ∀ face, printSide ev budget = some face → ¬ (key = ev.symbol.asU64 ∧ other = face)) :
    (e.onMarketEvent ev budget).2.filter (fun f => f.orderId = o.orderId) = [] ∧
      o ∈ (e.onMarketEvent ev budget).1.orders key other := by
  constructor
  · refine List.filter_eq_nil_iff.mpr fun f member => ?_
    obtain ⟨face, fills, p, served, -, rfl⟩ := mem_fills sound member
    intro same
    obtain ⟨place, sides, -⟩ := sound.unique resting (mem_of_given served)
      (of_decide_eq_true same).symm
    exact apart face fills ⟨place, sides⟩
  · cases fills : printSide ev budget with
    | none =>
      rw [onMarketEvent_idle fills]
      exact resting
    | some face =>
      refine (mem_print sound fills).mpr ?_
      rw [if_neg (apart face fills)]
      exact resting

/-- An id that rests nowhere is not filled and rests nowhere afterwards. -/
theorem print_absent (sound : Sound e) {id : Nat} (absent : e.Absent id) (ev : BookEvent)
    (budget : Nat) : (e.onMarketEvent ev budget).2.filter (fun f => f.orderId = id) = [] ∧
      (e.onMarketEvent ev budget).1.Absent id := by
  constructor
  · refine List.filter_eq_nil_iff.mpr fun f member same => ?_
    obtain ⟨face, -, p, served, -, rfl⟩ := mem_fills sound member
    exact absent _ _ _ (mem_of_given served) (of_decide_eq_true same)
  · intro key other o member
    obtain ⟨p, held, -, -, same⟩ := exists_of_mem_print sound member
    rw [same]
    exact absent key other p held

end Print

end SimMatchingEngine

end FeedHandler
