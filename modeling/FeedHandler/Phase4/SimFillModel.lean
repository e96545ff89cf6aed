import FeedHandler.Lib.Run
import FeedHandler.Phase4.SimMatchingInvariant

/-! The fill model over whole histories of the simulated engine: what becomes of an order
from its submission on, and what each print fills. -/
namespace FeedHandler

open PriorityAllocation

namespace SimMatchingEngine

/-- What the callers of the engine do; orders are bound and submitted in one go. -/
inductive Call where
  | submit (symbol : UInt64) (side : OrderSide) (price : Int) (qty id : Nat) (tsNs : UInt64)
  | cancel (id : Nat)
  | print (ev : BookEvent) (budget : Nat)

/-- The engine with all the fills it has reported. -/
structure Session where
  engine : SimMatchingEngine := {}
  fills : List Fill := []

/-- The engine after a call, and the fills the call reports. -/
def handle (sorts : SideSorts) (e : SimMatchingEngine) : Call → SimMatchingEngine × List Fill
  | .submit symbol side price qty id tsNs =>
    (submit sorts (e.bindOrderSymbol id symbol) side price qty id tsNs, [])
  | .cancel id => (e.cancel id, [])
  | .print ev budget => e.onMarketEvent ev budget

def Session.step (sorts : SideSorts) (s : Session) (call : Call) : Session :=
  let handled := handle sorts s.engine call
  { engine := handled.1, fills := s.fills ++ handled.2 }

def session (sorts : SideSorts) (calls : List Call) : Session :=
  calls.foldl (Session.step sorts) {}

/-- The id that a call submits. -/
def Call.submits : Call → Option Nat
  | .submit _ _ _ _ id _ => some id
  | _ => none

/-- A submitted order has an id and a quantity. -/
def Call.Proper : Call → Prop
  | .submit _ _ _ qty id _ => id ≠ 0 ∧ qty ≠ 0
  | _ => True

instance (call : Call) : Decidable call.Proper := by
  cases call <;> unfold Call.Proper <;> infer_instance

/-- Every id is submitted once. -/
def Fresh (calls : List Call) : Prop :=
  (calls.filterMap Call.submits).Nodup ∧ ∀ call ∈ calls, call.Proper

instance (calls : List Call) : Decidable (Fresh calls) := inferInstanceAs (Decidable (_ ∧ _))

/-- The fills of one order. -/
def fillsOf (id : Nat) (fills : List Fill) : List Fill := fills.filter (fun f => f.orderId = id)

def filled (fills : List Fill) : Nat := (fills.map Fill.qty).sum

variable {sorts : SideSorts} {calls before after : List Call} {e : SimMatchingEngine}

theorem session_append (sorts : SideSorts) (before after : List Call) :
    session sorts (before ++ after) = after.foldl (Session.step sorts) (session sorts before) :=
  List.foldl_append ..

theorem session_concat (sorts : SideSorts) (calls : List Call) (call : Call) :
    session sorts (calls ++ [call]) = (session sorts calls).step sorts call :=
  session_append sorts calls [call]

theorem Fresh.left (fresh : Fresh (before ++ after)) : Fresh before := by
  obtain ⟨nodup, proper⟩ := fresh
  rw [List.filterMap_append] at nodup
  exact ⟨nodup.of_append_left, fun call member => proper call (List.mem_append_left _ member)⟩

/-- The id of the last submission is new. -/
theorem Fresh.last {symbol : UInt64} {side : OrderSide} {price : Int} {qty id : Nat} {tsNs : UInt64}
    (fresh : Fresh (calls ++ [.submit symbol side price qty id tsNs])) :
    id ∉ calls.filterMap Call.submits ∧ id ≠ 0 ∧ qty ≠ 0 := by
  obtain ⟨nodup, proper⟩ := fresh
  rw [List.filterMap_append, List.nodup_append] at nodup
  exact ⟨fun member => nodup.2.2 id member id (List.mem_singleton_self id) rfl,
    proper _ (List.mem_append_right _ (List.mem_singleton_self _))⟩

/-- The engine is sound, and an id that was never submitted rests nowhere. -/
structure Grown (calls : List Call) (e : SimMatchingEngine) : Prop where
  sound : Sound e
  known : ∀ id, id ∉ calls.filterMap Call.submits → e.Absent id

theorem Absent.place {symbol : UInt64} {side : OrderSide} {price : Int} {qty id new : Nat}
    {tsNs : UInt64} (absent : e.Absent id) (nonzero : new ≠ 0) (sized : qty ≠ 0)
    (other : new ≠ id) :
    (submit sorts (e.bindOrderSymbol new symbol) side price qty new tsNs).Absent id := by
  intro key face o member
  rcases (mem_place nonzero sized).mp member with old | ⟨-, -, rfl⟩
  · exact absent key face o old
  · exact other

theorem Absent.cancel (sound : Sound e) {id : Nat} (absent : e.Absent id) (other : Nat) :
    (e.cancel other).Absent id :=
  fun key face o member => absent key face o ((mem_cancel sound).mp member).1

theorem initial_grown : Grown [] {} where
  sound := initial_sound
  known := by
    intro id _ symbol side o member
    rw [initial_orders] at member
    cases member

theorem Grown.step {call : Call} (grown : Grown calls e) (fresh : Fresh (calls ++ [call])) :
    Grown (calls ++ [call]) (handle sorts e call).1 := by
  obtain ⟨sound, known⟩ := grown
  have earlier : ∀ id, id ∉ (calls ++ [call]).filterMap Call.submits → e.Absent id := by
    intro id new
    rw [List.filterMap_append, List.mem_append, not_or] at new
    exact known id new.1
  cases call with
  | submit symbol side price qty id tsNs =>
    obtain ⟨new, nonzero, sized⟩ := fresh.last
    refine ⟨sound.place (known id new) nonzero sized, fun other unseen => ?_⟩
    refine (earlier other unseen).place nonzero sized ?_
    rintro rfl
    rw [List.filterMap_append, List.mem_append, not_or] at unseen
    exact unseen.2 (List.mem_singleton_self id)
  | cancel id => exact ⟨sound.cancel id, fun other unseen => (earlier other unseen).cancel sound id⟩
  | print ev budget =>
    exact ⟨sound.print ev budget,
      fun other unseen => (print_absent sound (earlier other unseen) _ _).2⟩

theorem grown (sorts : SideSorts) (fresh : Fresh calls) :
    Grown calls (session sorts calls).engine := by
  induction calls using List.reverseRecOn with
  | nil => exact initial_grown
  | append_singleton calls call ih =>
    rw [session_concat]
    exact (ih fresh.left).step fresh

/-- The fills of an order of the given quantity, in the order they come: each one takes
something, none takes more than is left, and the one that takes the rest is not partial. -/
inductive Filling (qty : Nat) : List Fill → Prop
  | none : Filling qty []
  | more {fills : List Fill} {f : Fill} (front : Filling qty fills) (takes : 0 < f.qty)
      (within : filled fills + f.qty ≤ qty)
      (flag : f.isPartial = decide (filled fills + f.qty < qty)) : Filling qty (fills ++ [f])

theorem filled_append (first second : List Fill) :
    filled (first ++ second) = filled first + filled second := by
  rw [filled, List.map_append, List.sum_append, ← filled, ← filled]

theorem filled_singleton (f : Fill) : filled [f] = f.qty := by
  simp [filled]

theorem Filling.within {qty : Nat} {fills : List Fill} (filling : Filling qty fills) :
    filled fills ≤ qty := by
  cases filling with
  | none => exact Nat.zero_le _
  | more _ _ within _ =>
    rw [filled_append, filled_singleton]
    exact within

/-- Exactly the last fill of a filled order is not partial. -/
theorem Filling.flags {qty : Nat} {fills front back : List Fill} {f : Fill}
    (filling : Filling qty fills) (whole : fills = front ++ f :: back) :
    f.isPartial = false ↔ back = [] ∧ filled fills = qty := by
  induction filling generalizing front f back with
  | none => simp at whole
  | @more fills last before takes within flag ih =>
    rcases List.eq_nil_or_concat back with rfl | ⟨later, g, rfl⟩
    · obtain ⟨rfl, same⟩ := List.append_inj' whole rfl
      cases List.singleton_inj.mp same
      rw [flag, filled_append, filled_singleton, decide_eq_false_iff_not, and_iff_right rfl]
      omega
    · rw [List.concat_eq_append, ← List.cons_append, ← List.append_assoc] at whole
      obtain ⟨earlier, -⟩ := List.append_inj' whole rfl
      refine iff_of_false (fun full => ?_) (fun both => ?_)
      · have reached := ((ih earlier).mp full).2
        omega
      · exact List.append_ne_nil_of_right_ne_nil later (List.cons_ne_nil g [])
          ((List.concat_eq_append ..).symm.trans both.1)

/-- An order on its way: while it is neither cancelled nor filled it rests with what its
fills have left, and otherwise it rests nowhere. -/
structure Life (symbol : UInt64) (o : SimOrder) (cancelled : Prop) (fills : List Fill)
    (e : SimMatchingEngine) : Prop where
  filling : Filling o.qty fills
  rests : ¬ cancelled → filled fills < o.qty →
    { o with qty := o.qty - filled fills } ∈ e.orders symbol o.side
  gone : cancelled ∨ filled fills = o.qty → e.Absent o.orderId

theorem fillsOf_append (id : Nat) (first second : List Fill) :
    fillsOf id (first ++ second) = fillsOf id first ++ fillsOf id second := List.filter_append ..

/-- A print gives a resting order one fill or none. -/
theorem Life.served {symbol : UInt64} {o : SimOrder} {fills : List Fill} (sound : Sound e)
    {cancelled : Prop} (life : Life symbol o cancelled fills e) (live : ¬ cancelled)
    (wanting : filled fills < o.qty) (ev : BookEvent) (budget : Nat) :
    Life symbol o cancelled (fills ++ fillsOf o.orderId (e.onMarketEvent ev budget).2)
      (e.onMarketEvent ev budget).1 := by
  have resting := life.rests live wanting
  by_cases here : ∃ face, printSide ev budget = some face ∧ symbol = ev.symbol.asU64 ∧ o.side = face
  · obtain ⟨face, side, rfl, rfl⟩ := here
    obtain ⟨n, share⟩ : ∃ n, (_, n) ∈ e.given o.side ev budget := exists_given resting
    obtain ⟨reported, keeps, ends⟩ := print_served sound side share
    have bound : n ≤ o.qty - filled fills := (allocate_bounds share).1
    rw [fillsOf, reported]
    by_cases zero : n = 0
    · subst zero
      rw [fillOf, if_neg (lt_irrefl 0), Option.toList_none, List.append_nil]
      refine ⟨life.filling, fun _ _ => keeps (Nat.sub_pos_of_lt wanting), fun ended => ?_⟩
      exact absurd ended (not_or.mpr ⟨live, wanting.ne⟩)
    · rw [fillOf, if_pos (Nat.pos_of_ne_zero zero), Option.toList_some]
      constructor
      · refine life.filling.more (Nat.pos_of_ne_zero zero) (by simp only; omega) ?_
        exact decide_eq_decide.mpr (by simp only; omega)
      · intro _ short
        rw [filled_append, filled_singleton] at short ⊢
        rw [← Nat.sub_sub]
        exact keeps (by simp only at short ⊢; omega)
      · intro ended
        have full := ended.resolve_left live
        rw [filled_append, filled_singleton] at full
        exact ends (by simp only at full ⊢; omega)
  · obtain ⟨none, stays⟩ := print_apart sound resting
      (fun face side place => here ⟨face, side, place⟩)
    rw [fillsOf, none, List.append_nil]
    exact ⟨life.filling, fun _ _ => stays,
      fun ended => absurd ended (not_or.mpr ⟨live, wanting.ne⟩)⟩

theorem Life.next (sorts : SideSorts) {symbol : UInt64} {o : SimOrder} {fills : List Fill}
    {cancelled : Prop} (sound : Sound e) (life : Life symbol o cancelled fills e) (call : Call)
    (proper : call.Proper) (other : call.submits ≠ some o.orderId) :
    Life symbol o (cancelled ∨ call = .cancel o.orderId)
      (fills ++ fillsOf o.orderId (handle sorts e call).2) (handle sorts e call).1 := by
  cases call with
  | submit key side price qty id tsNs =>
    have differs : id ≠ o.orderId := fun same => other (congrArg some same)
    have nothing : fillsOf o.orderId [] = [] := rfl
    simp only [handle, nothing, List.append_nil, reduceCtorEq, or_false]
    exact ⟨life.filling,
      fun live wanting => (mem_place proper.1 proper.2).mpr (Or.inl (life.rests live wanting)),
      fun ended => (life.gone ended).place proper.1 proper.2 differs⟩
  | cancel id =>
    have nothing : fillsOf o.orderId [] = [] := rfl
    simp only [handle, nothing, List.append_nil, Call.cancel.injEq]
    refine ⟨life.filling, fun live wanting => ?_, fun ended => ?_⟩
    · obtain ⟨open_, differs⟩ := not_or.mp live
      exact (mem_cancel sound).mpr ⟨life.rests open_ wanting, fun same => differs same.symm⟩
    · rcases ended with (early | now) | full
      · exact (life.gone (Or.inl early)).cancel sound id
      · rw [now]
        exact absent_cancel sound o.orderId
      · exact (life.gone (Or.inr full)).cancel sound id
  | print ev budget =>
    simp only [handle, reduceCtorEq, or_false]
    by_cases ended : cancelled ∨ filled fills = o.qty
    · obtain ⟨none, absent⟩ := print_absent sound (life.gone ended) ev budget
      rw [fillsOf, none, List.append_nil]
      exact ⟨life.filling, fun live wanting => absurd ended (not_or.mpr ⟨live, wanting.ne⟩),
        fun _ => absent⟩
    · obtain ⟨live, wanting⟩ := not_or.mp ended
      exact life.served sound live (lt_of_le_of_ne life.filling.within wanting) ev budget

/-- What rests nowhere is not filled. -/
theorem handle_absent (sorts : SideSorts) (sound : Sound e) {id : Nat} (absent : e.Absent id)
    (call : Call) : fillsOf id (handle sorts e call).2 = [] :=
  match call with
  | .submit .. => rfl
  | .cancel _ => rfl
  | .print ev budget => (print_absent sound absent ev budget).1

/-- An order that was not submitted has no fills. -/
theorem unseen_fills (sorts : SideSorts) (fresh : Fresh calls) {id : Nat}
    (unseen : id ∉ calls.filterMap Call.submits) : fillsOf id (session sorts calls).fills = [] := by
  induction calls using List.reverseRecOn with
  | nil => rfl
  | append_singleton calls call ih =>
    rw [List.filterMap_append, List.mem_append, not_or] at unseen
    rw [session_concat, Session.step, fillsOf_append, ih fresh.left unseen.1, List.nil_append]
    obtain ⟨sound, known⟩ := grown sorts fresh.left
    exact handle_absent sorts sound (known id unseen.1) call

section Order

variable {symbol : UInt64} {side : OrderSide} {price : Int} {qty id : Nat} {tsNs : UInt64}
  {later : List Call}

/-- From its submission on, every order follows its life. -/
theorem order_life (sorts : SideSorts)
    (fresh : Fresh (before ++ .submit symbol side price qty id tsNs :: later)) :
    let s := session sorts (before ++ .submit symbol side price qty id tsNs :: later)
    Life symbol ⟨id, side, price, qty, tsNs⟩ (.cancel id ∈ later) (fillsOf id s.fills)
      s.engine := by
  induction later using List.reverseRecOn with
  | nil =>
    obtain ⟨new, nonzero, sized⟩ := fresh.last
    have none : fillsOf id (session sorts before).fills = [] := unseen_fills sorts fresh.left new
    simp only [session_concat, Session.step, handle, List.append_nil, none]
    refine ⟨.none, fun _ _ => (mem_place nonzero sized).mpr (Or.inr ⟨rfl, rfl, rfl⟩),
      fun ended => ?_⟩
    rcases ended with early | full
    · cases early
    · exact absurd full.symm sized
  | append_singleton later call ih =>
    rw [← List.cons_append, ← List.append_assoc] at fresh ⊢
    obtain ⟨sound, -⟩ := grown sorts fresh.left
    have proper : call.Proper := fresh.2 call (List.mem_append_right _ (List.mem_singleton_self _))
    have other : call.submits ≠ some id := by
      intro again
      have nodup := fresh.1
      rw [List.filterMap_append, List.nodup_append] at nodup
      refine nodup.2.2 id ?_ id ?_ rfl
      · exact List.mem_filterMap.mpr ⟨_, List.mem_append_right _ List.mem_cons_self, rfl⟩
      · exact List.mem_filterMap.mpr ⟨call, List.mem_singleton_self _, again⟩
    have cancels : (.cancel id ∈ later ++ [call]) = (.cancel id ∈ later ∨ call = .cancel id) := by
      rw [List.mem_append, List.mem_singleton, eq_comm (a := call)]
    simp only [session_concat, Session.step, fillsOf_append, cancels]
    exact (ih fresh.left).next sorts sound call proper other

/-- No fill follows a cancel. -/
theorem cancelled_fills (sorts : SideSorts) {first second : List Call}
    (fresh : Fresh
      (before ++ .submit symbol side price qty id tsNs :: (first ++ .cancel id :: second))) :
    fillsOf id (session sorts
        (before ++ .submit symbol side price qty id tsNs :: (first ++ .cancel id :: second))).fills =
      fillsOf id
        (session sorts (before ++ .submit symbol side price qty id tsNs :: first)).fills := by
  induction second using List.reverseRecOn with
  | nil =>
    rw [← List.cons_append, ← List.append_assoc, session_concat, Session.step, fillsOf_append]
    exact List.append_nil _
  | append_singleton second call ih =>
    have regroup : before ++ .submit symbol side price qty id tsNs ::
        (first ++ .cancel id :: (second ++ [call])) =
        before ++ .submit symbol side price qty id tsNs :: (first ++ .cancel id :: second) ++
          [call] := by
      simp
    rw [regroup] at fresh ⊢
    have life := order_life sorts fresh.left
    have absent := life.gone (Or.inl (List.mem_append_right _ List.mem_cons_self))
    rw [session_concat, Session.step, fillsOf_append, ih fresh.left,
      handle_absent sorts (grown sorts fresh.left).sound absent, List.append_nil]

end Order

section Print

variable {ev : BookEvent} {budget : Nat} {side : OrderSide} {o p : SimOrder}

/-- The side of the private book that an event can fill, whatever its budget. -/
def passive (ev : BookEvent) : Option OrderSide :=
  if isPrint ev.type = true then
    match ev.side with
    | .sell => some .buy
    | .buy => some .sell
    | .unknown => none
  else none

/-- The budget of a print; a print without a quantity has none. -/
def spend (ev : BookEvent) (budget : Nat) : Nat := if ev.qty = 0 then 0 else budget

theorem printSide_eq (ev : BookEvent) (budget : Nat) :
    printSide ev budget = if spend ev budget = 0 then none else passive ev := by
  simp only [printSide, spend, passive]
  by_cases print : isPrint ev.type = true
  · by_cases empty : ev.qty = 0
    · simp [empty]
    · by_cases broke : budget = 0
      · simp [broke]
      · cases direction : ev.side <;> simp [print, empty, broke]
  · simp [print]

theorem filled_shares (side : OrderSide) (tradePrice : Int) (tsNs : UInt64)
    (given : List (SimOrder × Nat)) :
    filled (given.filterMap (fillOf side tradePrice tsNs)) = (given.map Prod.snd).sum := by
  induction given with
  | nil => rfl
  | cons p rest ih =>
    rw [List.map_cons, List.sum_cons, ← ih]
    by_cases zero : p.2 = 0
    · have none : fillOf side tradePrice tsNs p = none := if_neg (by omega)
      rw [List.filterMap_cons_none none, zero, Nat.zero_add]
    · have some : fillOf side tradePrice tsNs p = some _ := if_pos (Nat.pos_of_ne_zero zero)
      rw [List.filterMap_cons_some some, filled, List.map_cons, List.sum_cons, filled]

/-- What is better than something within reach is within reach. -/
theorem reaches_of_better (tradePrice : Int) (ordered : ¬ better side p o)
    (near : reaches side tradePrice p = true) : reaches side tradePrice o = true := by
  cases side <;> simp only [better, bidBetter, askBetter, reaches, decide_eq_true_eq] at * <;>
    split at ordered <;> omega

/-- The fills of a print add up to its budget or to all that it can fill. -/
theorem print_total (sound : Sound e) (faces : passive ev = some side) (budget : Nat) :
    filled (e.onMarketEvent ev budget).2 = min (spend ev budget)
      (((e.orders ev.symbol.asU64 side).filter (reaches side ev.price.toNat)).map
        SimOrder.qty).sum := by
  have sides := printSide_eq ev budget
  by_cases none : spend ev budget = 0
  · rw [if_pos none] at sides
    rw [onMarketEvent_idle sides, none, Nat.zero_min]
    rfl
  · rw [if_neg none, faces] at sides
    have whole : spend ev budget = budget := if_neg (printSide_eq_some.mp sides).1.2.1
    have closed := (sound.ordered ev.symbol.asU64 side).imp
      (fun ordered => reaches_of_better ev.price.toNat ordered)
    rw [(onMarketEvent_fills (sound.sized _ _) sides).1, filled_shares, given, shares, sum_allocate,
      asked_eq_filter closed, whole]

/-- A print fills orders of its side within its reach, at its price. -/
theorem print_fill (sound : Sound e) {f : Fill} (reported : f ∈ (e.onMarketEvent ev budget).2) :
    ∃ side, passive ev = some side ∧ f.side = side ∧ f.price = ev.price.toNat ∧
      ∃ o ∈ e.orders ev.symbol.asU64 side, reaches side ev.price.toNat o = true ∧
        o.orderId = f.orderId := by
  obtain ⟨side, sides, p, served, positive, rfl⟩ := mem_fills sound reported
  rw [printSide_eq] at sides
  split at sides
  · cases sides
  · exact ⟨side, sides, rfl, rfl, p.1, mem_of_given served,
      (allocate_bounds served).2 positive, rfl⟩

theorem better_weakOrder (side : OrderSide) : KWayMerge.WeakOrder (better side) :=
  match side with
  | .buy => bidBetter_weakOrder
  | .sell => askBetter_weakOrder

/-- An order is filled only if the orders better than it are filled up. -/
theorem print_priority (sound : Sound e) (faces : passive ev = some side)
    (first : p ∈ e.orders ev.symbol.asU64 side) (second : o ∈ e.orders ev.symbol.asU64 side)
    (prior : better side p o)
    (served : ∃ f ∈ (e.onMarketEvent ev budget).2, f.orderId = o.orderId) :
    (e.onMarketEvent ev budget).1.Absent p.orderId := by
  obtain ⟨f, reported, same⟩ := served
  obtain ⟨face, sides, q, share, positive, rfl⟩ := mem_fills sound reported
  have facing : side = face := by
    rw [printSide_eq, faces] at sides
    split at sides
    · cases sides
    · exact Option.some.inj sides
  subst facing
  obtain ⟨-, -, rfl⟩ := sound.unique (mem_of_given share) second same
  obtain ⟨m, part⟩ : ∃ m, (p, m) ∈ e.given side ev budget := exists_given first
  have order := sound.ordered ev.symbol.asU64 side
  rw [← map_fst_given e side ev budget, KWayMerge.Ordered, List.pairwise_map] at order
  have both := (allocate_priority SimOrder.qty (reaches side ev.price.toNat)
    (e.orders ev.symbol.asU64 side) budget).and order
  rcases pairwise_or both part share with equal | ⟨full, -⟩ | ⟨-, behind⟩
  · rw [← equal] at prior
    exact absurd prior ((better_weakOrder side).irrefl p)
  · exact (print_served sound sides part).2.2 (full positive)
  · exact absurd prior behind

theorem print_none (e : SimMatchingEngine) (faces : passive ev = none) (budget : Nat) :
    (e.onMarketEvent ev budget).2 = [] := by
  have sides := printSide_eq ev budget
  rw [faces, ite_self] at sides
  rw [onMarketEvent_idle sides]

end Print

/-- What the fill model says of an order and the calls since it was submitted. -/
structure OrderObeys (sorts : SideSorts) (before : List Call) (symbol : UInt64) (side : OrderSide)
    (price : Int) (qty id : Nat) (tsNs : UInt64) (later : List Call) (s : Session) : Prop where
  within : filled (fillsOf id s.fills) ≤ qty
  rests : (∃ key face, ∃ o ∈ s.engine.orders key face, o.orderId = id) ↔
    .cancel id ∉ later ∧ filled (fillsOf id s.fills) < qty
  flags : ∀ front f back, fillsOf id s.fills = front ++ f :: back →
    (f.isPartial = false ↔ back = [] ∧ filled (fillsOf id s.fills) = qty)
  silent : ∀ first second, later = first ++ .cancel id :: second →
    fillsOf id s.fills =
      fillsOf id (session sorts (before ++ .submit symbol side price qty id tsNs :: first)).fills

/-- What the fill model says of a print. -/
structure PrintObeys (e : SimMatchingEngine) (ev : BookEvent) (budget : Nat) : Prop where
  idle : passive ev = none → (e.onMarketEvent ev budget).2 = []
  total : ∀ side, passive ev = some side → filled (e.onMarketEvent ev budget).2 =
    min (spend ev budget) (((e.orders ev.symbol.asU64 side).filter
      (reaches side ev.price.toNat)).map SimOrder.qty).sum
  eligible : ∀ f ∈ (e.onMarketEvent ev budget).2, ∃ side, passive ev = some side ∧ f.side = side ∧
    f.price = ev.price.toNat ∧ ∃ o ∈ e.orders ev.symbol.asU64 side,
      reaches side ev.price.toNat o = true ∧ o.orderId = f.orderId
  priority : ∀ side, passive ev = some side → ∀ p ∈ e.orders ev.symbol.asU64 side,
    ∀ o ∈ e.orders ev.symbol.asU64 side, better side p o →
      (∃ f ∈ (e.onMarketEvent ev budget).2, f.orderId = o.orderId) →
      (e.onMarketEvent ev budget).1.Absent p.orderId

/-- Two bids at one price; a print takes the earlier one and half of the later one. -/
def twoBids : List Call :=
  [.submit 0 .buy 100 5 1 10, .submit 0 .buy 100 6 2 20,
    .print { type := .trade, side := .sell, qty := 8, price := 100 } 8, .cancel 2]

example : (session .insertion twoBids).fills =
    [⟨1, .buy, 100, 5, 0, false⟩, ⟨2, .buy, 100, 3, 0, true⟩] := by decide +kernel

end SimMatchingEngine

end FeedHandler
