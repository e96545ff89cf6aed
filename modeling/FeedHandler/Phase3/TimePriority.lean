import FeedHandler.Phase3.IntrusiveRuns

/-! Price and time priority in the intrusive book. Against it stands a book that gives every
order it takes in the next ticket and keeps the orders of a place in a list. -/
namespace FeedHandler

open IntrusiveOrderBook (Place eventPlace)

/-- An order in the queue of its place. -/
structure Resting where
  ticket : Nat
  key : UInt64
  qty : UInt32
  deriving DecidableEq, Repr

structure PriorityBook where
  queues : Place → List Resting := fun _ => []
  named : UInt64 → Option (Nat × Place) := fun _ => none
  tickets : Nat := 0
  live : Nat := 0

namespace PriorityBook

/-- An order with a side goes behind the others at its place if there is room for it. -/
def add (capacity : Nat) (s : PriorityBook) (ev : BookEvent) : PriorityBook :=
  if ev.side = .unknown ∨ capacity ≤ s.live then s
  else
    let place := eventPlace ev
    let key := OrderBookEngine.orderKey ev.venue ev.orderId
    { queues := Function.update s.queues place (s.queues place ++ [⟨s.tickets, key, ev.qty⟩])
      named := Function.update s.named key (some (s.tickets, place))
      tickets := s.tickets + 1
      live := s.live + 1 }

/-- What a reduction takes off a quantity: all of it for zero and for more than there is. -/
def taken (resting qty : UInt32) (deleteAll : Bool) : UInt32 :=
  if deleteAll ∨ qty = 0 ∨ qty > resting then resting else qty

/-- An order loses quantity where it stands; one that has none left goes. -/
def reduce (s : PriorityBook) (key : UInt64) (qty : UInt32) (deleteAll : Bool) : PriorityBook :=
  match s.named key with
  | none => s
  | some (ticket, place) =>
    match (s.queues place).find? (·.ticket = ticket) with
    | none => s
    | some order =>
      let dec := taken order.qty qty deleteAll
      if order.qty - dec = 0 ∨ deleteAll then
        { s with
          queues := Function.update s.queues place
            ((s.queues place).filter (·.ticket ≠ ticket))
          named := Function.update s.named key none
          live := s.live - 1 }
      else
        { s with
          queues := Function.update s.queues place ((s.queues place).map fun other =>
            if other.ticket = ticket then { other with qty := other.qty - dec } else other) }

/-- A replacement loses its turn: it goes behind the others. -/
def replace (capacity : Nat) (s : PriorityBook) (ev : BookEvent) : PriorityBook :=
  let oldKey := OrderBookEngine.orderKey ev.venue ev.referenceOrderId
  match s.named oldKey with
  | none => s.add capacity ev
  | some (_, place) =>
    (s.reduce oldKey 0 true).add capacity
      { ev with side := if ev.side = .unknown then place.side else ev.side }

def onEvent (capacity : Nat) (s : PriorityBook) (ev : BookEvent) : PriorityBook :=
  match ev.type with
  | .add | .addMpid => if ev.orderId ≠ 0 then s.add capacity ev else s
  | .execute | .executePrice | .cancel | .delete =>
    s.reduce (OrderBookEngine.orderKey ev.venue ev.orderId) ev.qty (ev.type = .delete)
  | .replace => s.replace capacity ev
  | _ => s

/-- The quantity at a place. -/
def quantity (s : PriorityBook) (place : Place) : Nat :=
  ((s.queues place).map fun order => order.qty.toNat).sum

/-- Tickets are handed out once and in order. -/
structure Ordered (s : PriorityBook) : Prop where
  sorted : ∀ place, (s.queues place).Pairwise fun a b => a.ticket < b.ticket
  issued : ∀ place, ∀ order ∈ s.queues place, order.ticket < s.tickets

variable {capacity : Nat} {s : PriorityBook}

theorem Ordered.add (ordered : s.Ordered) (ev : BookEvent) : (s.add capacity ev).Ordered := by
  unfold PriorityBook.add
  split
  · exact ordered
  · constructor
    · intro place
      simp only [Function.update_apply]
      split
      · refine List.pairwise_append.mpr ⟨ordered.sorted _, List.pairwise_singleton _ _, ?_⟩
        intro order member last single
        rw [List.mem_singleton.mp single]
        exact ordered.issued _ order member
      · exact ordered.sorted place
    · intro place order member
      simp only [Function.update_apply] at member ⊢
      split at member
      · rcases List.mem_append.mp member with old | new
        · exact (ordered.issued _ order old).trans (Nat.lt_succ_self _)
        · rw [List.mem_singleton.mp new]
          exact Nat.lt_succ_self _
      · exact (ordered.issued place order member).trans (Nat.lt_succ_self _)

theorem Ordered.reduce (ordered : s.Ordered) (key : UInt64) (qty : UInt32) (deleteAll : Bool) :
    (s.reduce key qty deleteAll).Ordered := by
  unfold PriorityBook.reduce
  split
  · exact ordered
  · next ticket place named =>
    split
    · exact ordered
    · next order found =>
      simp only
      split
      · constructor
        · intro other
          simp only [Function.update_apply]
          split
          · exact (ordered.sorted place).filter _
          · exact ordered.sorted other
        · intro other resting member
          simp only [Function.update_apply] at member
          split at member
          · exact ordered.issued place resting (List.mem_filter.mp member).1
          · exact ordered.issued other resting member
      · have kept : ∀ (other : Resting) (dec : UInt32), (if other.ticket = ticket then
            { other with qty := other.qty - dec } else other).ticket = other.ticket := by
          intro other dec
          split <;> rfl
        constructor
        · intro other
          simp only [Function.update_apply]
          split
          · rw [List.pairwise_map]
            exact (ordered.sorted place).imp fun before => by simpa only [kept] using before
          · exact ordered.sorted other
        · intro other resting member
          simp only [Function.update_apply] at member
          split at member
          · obtain ⟨old, inside, rfl⟩ := List.mem_map.mp member
            rw [kept]
            exact ordered.issued place old inside
          · exact ordered.issued other resting member

theorem Ordered.replace (ordered : s.Ordered) (ev : BookEvent) :
    (s.replace capacity ev).Ordered := by
  simp only [PriorityBook.replace]
  split
  · exact ordered.add ev
  · exact (ordered.reduce _ _ _).add _

theorem Ordered.onEvent (ordered : s.Ordered) (ev : BookEvent) :
    (s.onEvent capacity ev).Ordered := by
  unfold PriorityBook.onEvent
  split
  · split
    · exact ordered.add ev
    · exact ordered
  · split
    · exact ordered.add ev
    · exact ordered
  all_goals first | exact ordered.reduce _ _ _ | exact ordered.replace ev | exact ordered

end PriorityBook

namespace IntrusiveOrderBook

open LinkedQueue

variable {capacity : Nat}

/-- The nodes of a level from its head on, as the links lead. -/
def queueAt (b : IntrusiveOrderBook capacity) (p : Place) : List OrderNode :=
  match b.levelAt p with
  | none => []
  | some level => (walk (fun i => (b.nodes i).next) kNull capacity level.head).map b.nodes

/-- An order of the pool with its ticket. -/
def resting (nodes : UInt32 → OrderNode) (ticket : UInt32 → Nat) (i : UInt32) : Resting :=
  ⟨ticket i, (nodes i).key, (nodes i).qty⟩

/-- The book and the book of tickets hold the same orders in the same turn. -/
structure Follows (b : IntrusiveOrderBook capacity) (s : PriorityBook) (free : List UInt32)
    (queue : Place → List UInt32) (ticket : UInt32 → Nat) : Prop where
  rep : Represents b capacity [] free queue
  queues : ∀ p, s.queues p = (queue p).map (resting b.nodes ticket)
  named : ∀ key, s.named key = (b.orderIndex key).map fun i => (ticket i, (b.nodes i).place)
  issued : ∀ i, (b.nodes i).live = true → ticket i < s.tickets
  distinct : ∀ i j, (b.nodes i).live = true → (b.nodes j).live = true → ticket i = ticket j → i = j
  live : s.live = b.liveOrderCount

variable {b b' : IntrusiveOrderBook capacity} {s : PriorityBook}
  {free rest : List UInt32} {queue : Place → List UInt32} {ticket : UInt32 → Nat} {ev : BookEvent}
  {i : UInt32} {key : UInt64} {dec : UInt32}

/-- An order that enters takes the next ticket and the last turn. -/
theorem Follows.enter (follows : Follows b s (i :: rest) queue ticket)
    (proper : capacity ≤ kNull.toNat) (known : ev.side ≠ .unknown) (added : Added b ev i b') :
    Follows b' (s.add capacity ev) rest
      (Function.update queue (eventPlace ev) (queue (eventPlace ev) ++ [i]))
      (Function.update ticket i s.tickets) := by
  have rep := follows.rep
  have node := added.node_eq (rep.tail_ne_free proper known)
  have dead : (b.nodes i).live = false := ((rep.pool.mem_free i).mp List.mem_cons_self).2
  have apart : ∀ j, (b.nodes j).live = true → j ≠ i := by
    rintro j live rfl
    exact absurd (dead.symm.trans live) (by decide)
  have kept : ∀ j, j ≠ i → (b'.nodes j).live = (b.nodes j).live ∧
      (b'.nodes j).place = (b.nodes j).place ∧ (b'.nodes j).key = (b.nodes j).key ∧
        (b'.nodes j).qty = (b.nodes j).qty := by
    intro j other
    rw [node, if_neg other]
    exact ⟨rfl, rfl, rfl, rfl⟩
  have own : b'.nodes i = { newNode ev with prev := (b.levelOr (eventPlace ev)).tail } := by
    rw [node, if_pos rfl]
  have room : ¬ (ev.side = .unknown ∨ capacity ≤ s.live) := by
    have count := rep.pool.count
    rw [List.length_cons] at count
    rw [follows.live]
    exact fun full => full.elim known (by omega)
  have same : ∀ p, ∀ j ∈ queue p, resting b'.nodes (Function.update ticket i s.tickets) j =
      resting b.nodes ticket j := by
    intro p j member
    have other := apart j ((rep.levels.mem_queue p j).mp member).1
    simp only [resting, Function.update_of_ne other, (kept j other).2.2]
  have was : ∀ j, (b'.nodes j).live = true → j ≠ i → (b.nodes j).live = true :=
    fun j live other => (kept j other).1.symm.trans live
  rw [PriorityBook.add, if_neg room]
  refine ⟨rep.enter proper known added, ?_, ?_, ?_, ?_, ?_⟩
  · intro p
    simp only [Function.update_apply]
    split
    · have last : resting b'.nodes (Function.update ticket i s.tickets) i =
          ⟨s.tickets, OrderBookEngine.orderKey ev.venue ev.orderId, ev.qty⟩ := by
        simp only [resting, own, Function.update_self]
        rfl
      rw [List.map_append, List.map_singleton, last, follows.queues,
        List.map_congr_left (same (eventPlace ev))]
    · rw [follows.queues, List.map_congr_left (same p)]
  · intro key
    simp only [added.index, Function.update_apply]
    split
    · simp only [Option.map_some, own, if_true]
      rfl
    · rw [follows.named]
      cases found : b.orderIndex key with
      | none => rfl
      | some j =>
        have other := apart j (rep.index key j found).1
        simp only [Option.map_some, if_neg other, (kept j other).2.1]
  · intro j live
    simp only [Function.update_apply]
    split
    · exact Nat.lt_succ_self _
    · next other => exact (follows.issued j (was j live other)).trans (Nat.lt_succ_self _)
  · intro j k first second
    simp only [Function.update_apply]
    split
    · next here =>
      split
      · next there => exact fun _ => here.trans there.symm
      · next other =>
        intro same
        exact absurd (follows.issued k (was k second other)) (by omega)
    · next other =>
      split
      · next there =>
        intro same
        exact absurd (follows.issued j (was j first other)) (by omega)
      · next others => exact follows.distinct j k (was j first other) (was k second others)
  · simp only [follows.live, added.count]

/-- The order that a key leads to is found under its ticket. -/
theorem Follows.find (follows : Follows b s free queue ticket)
    (named : b.orderIndex key = some i) :
    s.named key = some (ticket i, (b.nodes i).place) ∧
      (s.queues (b.nodes i).place).find? (·.ticket = ticket i) =
        some (resting b.nodes ticket i) := by
  have rep := follows.rep
  have live := (rep.index key i named).1
  have member : i ∈ queue (b.nodes i).place := (rep.levels.mem_queue _ i).mpr ⟨live, rfl⟩
  refine ⟨by rw [follows.named, named, Option.map_some], ?_⟩
  rw [follows.queues, List.find?_map]
  have alone : ∀ j ∈ queue (b.nodes i).place, (resting b.nodes ticket j).ticket = ticket i → j = i :=
    fun j inside same => follows.distinct j i ((rep.levels.mem_queue _ j).mp inside).1 live same
  have found : (queue (b.nodes i).place).find?
      ((fun order : Resting => decide (order.ticket = ticket i)) ∘ resting b.nodes ticket) =
        some i := by
    rw [List.find?_eq_some_iff_append]
    refine ⟨by simp [resting], ?_⟩
    obtain ⟨xs, ys, split⟩ := List.append_of_mem member
    refine ⟨xs, ys, split, fun j front => ?_⟩
    have inside : j ∈ queue (b.nodes i).place := by simp [split, front]
    have nodup := rep.levels.nodup (b.nodes i).place
    rw [split] at nodup
    have differ : j ≠ i := by
      rintro rfl
      exact (List.nodup_append.mp nodup).2.2 j front j List.mem_cons_self rfl
    simpa using fun same => differ (alone j inside same)
  rw [found, Option.map_some]

theorem taken_amount (node : OrderNode) (qty : UInt32) (deleteAll : Bool) :
    PriorityBook.taken node.qty qty deleteAll = amount node qty deleteAll := rfl

/-- An order that keeps a part of its quantity keeps its turn. -/
theorem Follows.shrink (follows : Follows b s free queue ticket)
    (named : b.orderIndex key = some i) {qty : UInt32} {deleteAll : Bool}
    (shrunk : Shrunk b i (amount (b.nodes i) qty deleteAll) b')
    (some_left : (b.nodes i).qty - amount (b.nodes i) qty deleteAll ≠ 0)
    (part : deleteAll = false) :
    Follows b' (s.reduce key qty deleteAll) free queue ticket := by
  have rep := follows.rep
  have live := (rep.index key i named).1
  obtain ⟨known, found⟩ := follows.find named
  have stays : ¬ ((b.nodes i).qty - amount (b.nodes i) qty deleteAll = 0 ∨ deleteAll = true) :=
    fun gone => gone.elim some_left (part ▸ Bool.false_ne_true)
  have node : ∀ j, b'.nodes j = if j = i then (b.nodes i).less (amount (b.nodes i) qty deleteAll)
      else b.nodes j := by
    intro j
    rw [shrunk.nodes, Function.update_apply]
  have kept : ∀ j, (b'.nodes j).live = (b.nodes j).live ∧ (b'.nodes j).place = (b.nodes j).place := by
    intro j
    rw [node]
    split
    · next here => exact here ▸ ⟨rfl, rfl⟩
    · exact ⟨rfl, rfl⟩
  simp only [PriorityBook.reduce, known, found]
  simp only [resting, taken_amount, stays, if_false]
  refine ⟨rep.shrink live (amount_le _ _ _) shrunk, ?_, ?_, ?_, ?_, ?_⟩
  · intro p
    simp only [Function.update_apply]
    split
    · next here =>
      rw [follows.queues, List.map_map, here]
      apply List.map_congr_left
      intro j member
      have alive := ((rep.levels.mem_queue _ j).mp member).1
      simp only [Function.comp_apply, resting, node]
      by_cases same : j = i
      · subst same
        simp [OrderNode.less]
      · have apart : ticket j ≠ ticket i := fun equal => same (follows.distinct j i alive live equal)
        simp only [apart, same, if_false]
    · next elsewhere =>
      rw [follows.queues]
      apply List.map_congr_left
      intro j member
      have own := ((rep.levels.mem_queue p j).mp member).2
      have apart : j ≠ i := by
        rintro rfl
        exact elsewhere own.symm
      simp only [resting, node, if_neg apart]
  · intro other
    rw [follows.named, shrunk.index]
    exact congrArg (fun f => (b.orderIndex other).map f)
      (funext fun j => by rw [(kept j).2])
  · exact fun j alive => follows.issued j ((kept j).1.symm.trans alive)
  · exact fun j k first second => follows.distinct j k ((kept j).1.symm.trans first)
      ((kept k).1.symm.trans second)
  · simp only [follows.live, shrunk.count]

/-- An order that is used up leaves, and the others keep their turns. -/
theorem Follows.leave (follows : Follows b s free queue ticket) (proper : capacity ≤ kNull.toNat)
    (named : b.orderIndex key = some i) {qty : UInt32} {deleteAll : Bool}
    (removed : Removed b key i (amount (b.nodes i) qty deleteAll) b')
    (used : (b.nodes i).qty - amount (b.nodes i) qty deleteAll = 0) :
    ∃ left, Follows b' (s.reduce key qty deleteAll) (i :: free) left ticket := by
  have rep := follows.rep
  have live := (rep.index key i named).1
  obtain ⟨known, found⟩ := follows.find named
  have gone : (b.nodes i).qty - amount (b.nodes i) qty deleteAll = 0 ∨ deleteAll = true := .inl used
  obtain ⟨xs, ys, split⟩ := List.append_of_mem ((rep.levels.mem_queue _ i).mpr ⟨live, rfl⟩)
  have kept : ∀ j, j ≠ i → (b'.nodes j).live = (b.nodes j).live ∧
      (b'.nodes j).place = (b.nodes j).place ∧ (b'.nodes j).key = (b.nodes j).key ∧
        (b'.nodes j).qty = (b.nodes j).qty := by
    intro j other
    rw [removed.node_eq, if_neg other, unlinked_node j other]
    exact ⟨rfl, rfl, rfl, rfl⟩
  have was : ∀ j, (b'.nodes j).live = true → j ≠ i ∧ (b.nodes j).live = true := by
    intro j alive
    have other : j ≠ i := by
      rintro rfl
      rw [removed.node_eq, if_pos rfl] at alive
      cases alive
    exact ⟨other, (kept j other).1.symm.trans alive⟩
  simp only [PriorityBook.reduce, known, found]
  simp only [resting, taken_amount, gone, if_true]
  refine ⟨_, rep.leave live removed proper named (amount_le _ _ _) used split, ?_, ?_, ?_, ?_, ?_⟩
  · intro p
    simp only [Function.update_apply]
    split
    · have nodup := rep.levels.nodup (b.nodes i).place
      rw [split] at nodup
      have absent : i ∉ xs ++ ys := (List.nodup_cons.mp (List.nodup_middle.mp nodup)).1
      have turn : ∀ j ∈ xs ++ ys, resting b'.nodes ticket j = resting b.nodes ticket j ∧
          ticket j ≠ ticket i := by
        intro j member
        have other : j ≠ i := fun same => absent (same ▸ member)
        have inside : j ∈ queue (b.nodes i).place := by
          rw [split]
          exact List.perm_middle.mem_iff.mpr (List.mem_cons_of_mem _ member)
        have alive := ((rep.levels.mem_queue _ j).mp inside).1
        exact ⟨by simp only [resting, (kept j other).2.2],
          fun equal => other (follows.distinct j i alive live equal)⟩
      have rests : ∀ zs : List UInt32, (∀ j ∈ zs, j ∈ xs ++ ys) →
          (zs.map (resting b.nodes ticket)).filter (fun order => order.ticket ≠ ticket i) =
            zs.map (resting b'.nodes ticket) := by
        intro zs part
        rw [List.filter_eq_self.mpr, List.map_congr_left]
        · exact fun j member => ((turn j (part j member)).1).symm
        · intro order member
          obtain ⟨j, inside, rfl⟩ := List.mem_map.mp member
          exact decide_eq_true
            (show (resting b.nodes ticket j).ticket ≠ ticket i from (turn j (part j inside)).2)
      rw [follows.queues, split, List.map_append, List.map_cons, List.filter_append,
        List.filter_cons_of_neg (by simp [resting]), rests xs (fun j member => by simp [member]),
        rests ys (fun j member => by simp [member]), List.map_append]
    · next elsewhere =>
      rw [follows.queues]
      apply List.map_congr_left
      intro j member
      have own := ((rep.levels.mem_queue p j).mp member).2
      have apart : j ≠ i := by
        rintro rfl
        exact elsewhere own.symm
      simp only [resting, (kept j apart).2.2]
  · intro other
    simp only [removed.index, Function.update_apply]
    split
    · rfl
    · next distinct =>
      rw [follows.named]
      cases found : b.orderIndex other with
      | none => rfl
      | some j =>
        have apart := rep.index_ne named distinct found
        simp only [Option.map_some, (kept j apart).2.1]
  · exact fun j alive => follows.issued j (was j alive).2
  · exact fun j k first second => follows.distinct j k (was j first).2 (was k second).2
  · simp only [follows.live, removed.count]

/-- The two books stand in the relation with some pool, queues and tickets. -/
def SameTurns (b : IntrusiveOrderBook capacity) (s : PriorityBook) : Prop :=
  ∃ free queue ticket, Follows b s free queue ticket

theorem SameTurns.addOrder (same : SameTurns b s) (proper : capacity ≤ kNull.toNat)
    (ev : BookEvent) : SameTurns (b.addOrder ev).1 (s.add capacity ev) := by
  obtain ⟨free, queue, ticket, follows⟩ := same
  rcases follows.rep.addOrder_cases proper (.inl rfl) ev with ⟨unsided, kept⟩ |
    ⟨known, rfl, kept⟩ | ⟨known, i, rest, rfl, added, _⟩
  · rw [kept, PriorityBook.add, if_pos (.inl unsided)]
    exact ⟨free, queue, ticket, follows⟩
  · have full : capacity ≤ s.live := by
      have count := follows.rep.pool.count
      have live := follows.live
      rw [List.length_nil] at count
      omega
    rw [kept, PriorityBook.add, if_pos (.inr full)]
    exact ⟨[], queue, ticket, follows.rep.same rfl rfl rfl rfl rfl, follows.queues, follows.named,
      follows.issued, follows.distinct, follows.live⟩
  · exact ⟨rest, _, _, follows.enter proper known added⟩

theorem SameTurns.reduceOrder (same : SameTurns b s) (proper : capacity ≤ kNull.toNat)
    (key : UInt64) (qty : UInt32) (deleteAll : Bool) :
    SameTurns (b.reduceOrder key qty deleteAll) (s.reduce key qty deleteAll) := by
  obtain ⟨free, queue, ticket, follows⟩ := same
  cases named : b.orderIndex key with
  | none =>
    have unknown : s.named key = none := by rw [follows.named, named, Option.map_none]
    have kept : b.reduceOrder key qty deleteAll = b := by
      simp only [IntrusiveOrderBook.reduceOrder, named]
    rw [kept, PriorityBook.reduce, unknown]
    exact ⟨free, queue, ticket, follows⟩
  | some i =>
    rcases follows.rep.reduceOrder_cases proper le_rfl named qty deleteAll with
      ⟨shrunk, some_left, part⟩ | ⟨removed, used⟩
    · exact ⟨free, queue, ticket, follows.shrink named shrunk some_left part⟩
    · obtain ⟨left, later⟩ := follows.leave proper named removed used
      exact ⟨i :: free, left, ticket, later⟩

theorem SameTurns.replaceOrder (same : SameTurns b s) (proper : capacity ≤ kNull.toNat)
    (ev : BookEvent) : SameTurns (b.replaceOrder ev) (s.replace capacity ev) := by
  obtain ⟨free, queue, ticket, follows⟩ := same
  have known := follows.named (OrderBookEngine.orderKey ev.venue ev.referenceOrderId)
  simp only [IntrusiveOrderBook.replaceOrder, PriorityBook.replace, known]
  cases named : b.orderIndex (OrderBookEngine.orderKey ev.venue ev.referenceOrderId) with
  | none =>
    simp only [Option.map_none]
    exact SameTurns.addOrder ⟨free, queue, ticket, follows⟩ proper ev
  | some i =>
    simp only [Option.map_some]
    exact SameTurns.addOrder (SameTurns.reduceOrder ⟨free, queue, ticket, follows⟩ proper _ 0 true)
      proper _

/-- Step lemma: every event keeps the turns. -/
theorem SameTurns.step (same : SameTurns b s) (proper : capacity ≤ kNull.toNat) (ev : BookEvent) :
    SameTurns (b.step ev) (s.onEvent capacity ev) := by
  simp only [IntrusiveOrderBook.step, onEvent, apply, PriorityBook.onEvent]
  cases ev.type
  case add | addMpid =>
    by_cases nonzero : ev.orderId ≠ 0
    · simp only [if_pos nonzero]
      exact same.addOrder proper ev
    · simp only [if_neg nonzero]
      exact same
  case execute | executePrice | cancel | delete => exact same.reduceOrder proper _ _ _
  case replace => exact same.replaceOrder proper ev
  all_goals exact same

theorem create_sameTurns (proper : capacity ≤ kNull.toNat) : SameTurns (create capacity) {} := by
  have created := create_represents proper (Nat.le_refl capacity)
  rw [Nat.sub_self] at created
  exact ⟨_, _, fun _ => 0, created, fun _ => rfl, fun _ => rfl,
    fun _ live => absurd live Bool.false_ne_true, fun _ _ live => absurd live Bool.false_ne_true, rfl⟩

/-- The event brings an order that the book takes. -/
abbrev Takes (capacity : Nat) (s : PriorityBook) (ev : BookEvent) : Prop :=
  (ev.type = .add ∨ ev.type = .addMpid) ∧ ev.orderId ≠ 0 ∧ ev.side ≠ .unknown ∧ s.live < capacity

theorem Follows.quantity (follows : Follows b s free queue ticket) {p : Place}
    (known : p.side ≠ .unknown) : (b.levelOr p).qty.toNat = s.quantity p := by
  rw [(follows.rep.levels.queueOk_levelOr known).qty, PriorityBook.quantity, follows.queues,
    List.map_map]
  rfl

/-- The links of a level lead through the orders in the order of their tickets. -/
theorem Follows.queueAt (follows : Follows b s free queue ticket) (proper : capacity ≤ kNull.toNat)
    {p : Place} (known : p.side ≠ .unknown) :
    (b.queueAt p).map (fun node => (node.key, node.qty)) =
      (s.queues p).map fun order => (order.key, order.qty) := by
  have rep := follows.rep
  rw [follows.queues, List.map_map]
  unfold IntrusiveOrderBook.queueAt
  cases found : b.levelAt p with
  | none => rw [(rep.levels.level_iff p known).mp found]; rfl
  | some level =>
    have queueOk := rep.levels.queueOk p level known found
    have enough := length_le_pool (rep.levels.nodup p) (fun j member => rep.queue_lt member)
    simp only
    rw [queueOk.head, walk_front queueOk.linked (rep.null_notMem proper p) enough, List.map_map]
    rfl

theorem Follows.queueAhead (follows : Follows b s free queue ticket)
    (proper : capacity ≤ kNull.toNat) (ev : BookEvent) :
    (b.onEvent ev).2.queueAheadBeforeAdd.toNat =
      if Takes capacity s ev then s.quantity (eventPlace ev) else 0 := by
  have count := follows.rep.pool.count
  have added : (b.addOrder ev).2.2.toNat =
      if ev.side ≠ .unknown ∧ s.live < capacity then s.quantity (eventPlace ev) else 0 := by
    rw [follows.live]
    rcases follows.rep.addOrder_cases proper (.inl rfl) ev with ⟨unsided, kept⟩ |
      ⟨known, rfl, kept⟩ | ⟨known, i, rest, rfl, _, _, ahead⟩
    · rw [kept, if_neg (fun taken => taken.1 unsided)]
      rfl
    · rw [kept, if_neg (fun taken => by rw [List.length_nil] at count; omega)]
      rfl
    · rw [ahead, if_pos ⟨known, by rw [List.length_cons] at count; omega⟩]
      exact follows.quantity known
  simp only [onEvent, apply, Takes]
  cases ev.type
  case add | addMpid =>
    by_cases nonzero : ev.orderId ≠ 0
    · simp only [if_pos nonzero, added]
      simp [nonzero]
    · simp only [if_neg nonzero]
      simp [nonzero]
  all_goals simp

/-- Price and time priority, whatever the stream: the links of every level lead from its head
through exactly the orders that were taken at its side and price and have not left, in the order
in which they were taken, with what is left of each. A reduction keeps an order's turn, a
replacement loses it. The quantity ahead that an added order is told is the sum of theirs. -/
theorem time_priority (capacity : Nat) (small : capacity < 2 ^ 32 - 1) (events : List BookEvent) :
    let b := events.foldl step (create capacity)
    let s := events.foldl (PriorityBook.onEvent capacity) {}
    s.Ordered ∧
      (∀ p, p.side ≠ .unknown → (b.queueAt p).map (fun node => (node.key, node.qty)) =
        (s.queues p).map fun order => (order.key, order.qty)) ∧
      (∀ p, p.side ≠ .unknown → (b.levelOr p).qty.toNat = s.quantity p) ∧
      ∀ ev, (b.onEvent ev).2.queueAheadBeforeAdd.toNat =
        if Takes capacity s ev then s.quantity (eventPlace ev) else 0 := by
  intro b s
  have proper : capacity ≤ kNull.toNat := small.le
  have along : Run.Along step (fun _ _ => True) (create capacity) events :=
    Run.along_of_forall _ _ (fun _ _ => trivial)
  have same : SameTurns b s :=
    along.simulation (R := SameTurns) (fun _ _ ev held _ => held.step proper ev)
      (create_sameTurns proper)
  have ordered : s.Ordered :=
    Run.invariant (P := PriorityBook.Ordered) (fun _ ev held => held.onEvent ev) events
      ⟨fun _ => List.Pairwise.nil, fun _ _ member => absurd member List.not_mem_nil⟩
  obtain ⟨free, queue, ticket, follows⟩ := same
  exact ⟨ordered, fun p known => follows.queueAt proper known,
    fun p known => follows.quantity known, fun ev => follows.queueAhead proper ev⟩

/-- An id twice and a pool that is exhausted. -/
theorem time_priority_duplicate :
    let b := duplicateStream.foldl step (create 2)
    let s := duplicateStream.foldl (PriorityBook.onEvent 2) {}
    (∀ p, p.side ≠ .unknown → (b.queueAt p).map (fun node => (node.key, node.qty)) =
      (s.queues p).map fun order => (order.key, order.qty)) :=
  (time_priority 2 (by decide) duplicateStream).2.1

end IntrusiveOrderBook

end FeedHandler
