import FeedHandler.Phase3.IntrusiveBest
import FeedHandler.Phase3.ItchBookExact
import FeedHandler.Phase3.TimePriority

/-! From the ITCH feed to the intrusive book. That book finds an order by its reference, so
executions, cancels and deletes reach it whatever their symbol, and it keeps the orders of a
price in the turn in which the exchange serves them. -/
namespace FeedHandler

open IntrusiveOrderBook (Place eventPlace)

def LiveOrder.place (order : LiveOrder) : Place where
  venue := .nasdaq
  symbol := order.symbol.asU64
  side := order.side
  price := order.price

namespace OrderLife

/-- The orders in their turns: a replacement goes behind all others. -/
def turn (turns : List LiveOrder) : OrderAction → List LiveOrder
  | .enter order => turns ++ [order]
  | .take orderRef shares => alter turns orderRef (·.without shares)
  | .leave orderRef => alter turns orderRef fun _ => none
  | .replace orderRef newRef shares price =>
    alter turns orderRef (fun _ => none) ++
      (turns.filter (·.orderRef = orderRef)).map (·.replacedBy newRef shares price)

variable {live turns : List LiveOrder} {order : LiveOrder} {orderRef : UInt64}

theorem alter_none : alter turns orderRef (fun _ => none) =
    turns.filter fun order => order.orderRef ≠ orderRef := by
  rw [← List.filterMap_eq_filter]
  apply List.filterMap_congr
  intro order _
  by_cases named : order.orderRef = orderRef <;> simp [Option.guard, named]

theorem alter_some (f : LiveOrder → LiveOrder) :
    alter turns orderRef (fun order => some (f order)) =
      turns.map fun order => if order.orderRef = orderRef then f order else order := by
  rw [← List.filterMap_eq_map]
  apply List.filterMap_congr
  intro order _
  by_cases named : order.orderRef = orderRef <;> simp [named]

/-- To replace an order where it stands or behind the others makes the same orders. -/
theorem replaced_perm (f : LiveOrder → LiveOrder) :
    (alter turns orderRef (fun _ => none) ++ (turns.filter (·.orderRef = orderRef)).map f).Perm
      (alter turns orderRef fun order => some (f order)) := by
  rw [alter_none, alter_some]
  induction turns with
  | nil => exact List.Perm.nil
  | cons first rest ih =>
    by_cases named : first.orderRef = orderRef
    · simp only [List.filter_cons, List.map_cons, named, ne_eq, not_true_eq_false, decide_false,
        decide_true, if_true, Bool.false_eq_true, if_false]
      exact List.perm_middle.trans (ih.cons _)
    · simp only [List.filter_cons, List.map_cons, named, ne_eq, not_false_eq_true, decide_true,
        decide_false, if_true, Bool.false_eq_true, if_false]
      exact ih.cons _

/-- The turns are the live orders. -/
theorem turn_perm (same : turns.Perm live) (action : OrderAction) :
    (turn turns action).Perm (step live action) := by
  cases action with
  | enter order => exact (List.perm_append_singleton order turns).trans (same.cons order)
  | take orderRef shares => exact same.filterMap _
  | leave orderRef => exact same.filterMap _
  | replace orderRef newRef shares price => exact (replaced_perm _).trans (same.filterMap _)

theorem WellFormed.perm (formed : WellFormed live) (same : turns.Perm live) : WellFormed turns where
  distinct := (same.map _).nodup_iff.mpr formed.distinct
  known := fun order member => formed.known order (same.mem_iff.mp member)
  positive := fun order member => formed.positive order (same.mem_iff.mp member)

theorem WellFormed.turn (formed : WellFormed turns) {action : OrderAction}
    (valid : Valid turns action) : WellFormed (turn turns action) :=
  (formed.step valid).perm (turn_perm (.refl _) action)

/-- Only one order has a reference. -/
theorem WellFormed.filter_ref (formed : WellFormed turns) (member : order ∈ turns) :
    turns.filter (·.orderRef = order.orderRef) = [order] := by
  have alone : ∀ other ∈ turns.filter (·.orderRef = order.orderRef), other = order := by
    intro other listed
    obtain ⟨inside, same⟩ := List.mem_filter.mp listed
    exact formed.eq_of_ref inside member (by simpa using same)
  have once : (turns.filter (·.orderRef = order.orderRef)).Nodup :=
    (List.Nodup.of_map _ formed.distinct).filter _
  have listed : order ∈ turns.filter (·.orderRef = order.orderRef) :=
    List.mem_filter.mpr ⟨member, by simp⟩
  generalize turns.filter (·.orderRef = order.orderRef) = named at alone once listed
  match named with
  | [] => cases listed
  | [only] => rw [alone only (by simp)]
  | first :: second :: rest =>
    have equal : first = second := (alone first (by simp)).trans (alone second (by simp)).symm
    exact absurd equal fun same => (List.nodup_cons.mp once).1 (by simp [same])

end OrderLife

namespace PriorityBook

open OrderLife

variable {capacity : Nat} {s : PriorityBook} {turns : List LiveOrder} {order : LiveOrder}
  {ticket : UInt64 → Nat} {ev : BookEvent} {qty amount : UInt32} {deleteAll : Bool}

/-- An order as it waits at its place. -/
def waiting (ticket : UInt64 → Nat) (order : LiveOrder) : Resting :=
  ⟨ticket order.orderRef, order.orderRef, order.remaining⟩

/-- The queues of the book hold the orders in their turns. -/
structure Mirrors (s : PriorityBook) (turns : List LiveOrder) (ticket : UInt64 → Nat) : Prop where
  queues : ∀ p, s.queues p = (turns.filter (·.place = p)).map (waiting ticket)
  named : ∀ order ∈ turns, s.named order.orderRef = some (ticket order.orderRef, order.place)
  issued : ∀ order ∈ turns, ticket order.orderRef < s.tickets
  distinct : ∀ a ∈ turns, ∀ b ∈ turns, ticket a.orderRef = ticket b.orderRef →
    a.orderRef = b.orderRef
  live : s.live = turns.length

theorem eventPlace_eq (brings : OrderBookEngine.Brings ev order) : eventPlace ev = order.place := by
  simp only [eventPlace, LiveOrder.place, brings.venue, brings.symbol, brings.side, brings.price]

theorem onEvent_adds (adds : ev.type.adds = true) (nonzero : ev.orderId ≠ 0) :
    s.onEvent capacity ev = s.add capacity ev := by
  simp only [PriorityBook.onEvent]
  cases kind : ev.type
  case add | addMpid => simp only [if_pos nonzero]
  all_goals exact absurd adds (by rw [kind]; decide)

/-- A fresh order goes behind the others. -/
theorem Mirrors.add (mirrors : Mirrors s turns ticket) (brings : OrderBookEngine.Brings ev order)
    (known : order.side ≠ .unknown) (room : s.live < capacity)
    (fresh : ∀ other ∈ turns, other.orderRef ≠ order.orderRef) :
    Mirrors (s.add capacity ev) (turns ++ [order])
      (Function.update ticket order.orderRef s.tickets) := by
  have taken : ¬ (ev.side = .unknown ∨ capacity ≤ s.live) := by
    rintro (unsided | full)
    · exact known (brings.side ▸ unsided)
    · exact absurd full (Nat.not_le.mpr room)
  have kept : ∀ other ∈ turns,
      Function.update ticket order.orderRef s.tickets other.orderRef = ticket other.orderRef :=
    fun other member => Function.update_of_ne (fresh other member) _ _
  rw [PriorityBook.add, if_neg taken]
  simp only [eventPlace_eq brings, brings.venue, brings.ref, brings.shares,
    OrderBookEngine.orderKey_nasdaq]
  refine ⟨?_, ?_, ?_, ?_, ?_⟩
  · intro p
    have same : (turns.filter (·.place = p)).map
        (waiting (Function.update ticket order.orderRef s.tickets)) =
          (turns.filter (·.place = p)).map (waiting ticket) :=
      List.map_congr_left fun other member => by
        simp only [waiting, kept other (List.mem_filter.mp member).1]
    rw [List.filter_append, List.map_append, same]
    simp only [Function.update_apply]
    by_cases here : p = order.place
    · subst here
      simp [mirrors.queues, waiting]
    · simp [mirrors.queues, here, Ne.symm here]
  · intro other member
    simp only [Function.update_apply]
    rcases List.mem_append.mp member with old | new
    · rw [if_neg (fresh other old), if_neg (fresh other old)]
      exact mirrors.named other old
    · rw [List.mem_singleton.mp new]
      simp
  · intro other member
    rcases List.mem_append.mp member with old | new
    · rw [kept other old]
      exact (mirrors.issued other old).trans (Nat.lt_succ_self _)
    · rw [List.mem_singleton.mp new, Function.update_self]
      exact Nat.lt_succ_self _
  · intro a memberA b memberB
    rcases List.mem_append.mp memberA with oldA | newA <;>
      rcases List.mem_append.mp memberB with oldB | newB
    · rw [kept a oldA, kept b oldB]
      exact mirrors.distinct a oldA b oldB
    · rw [List.mem_singleton.mp newB, kept a oldA, Function.update_self]
      exact fun same => absurd (mirrors.issued a oldA) (by omega)
    · rw [List.mem_singleton.mp newA, kept b oldB, Function.update_self]
      exact fun same => absurd (mirrors.issued b oldB) (by omega)
    · rw [List.mem_singleton.mp newA, List.mem_singleton.mp newB]
      exact fun _ => rfl
  · simp only [mirrors.live, List.length_append, List.length_singleton]

/-- The order of a reference is found at its place. -/
theorem Mirrors.find (mirrors : Mirrors s turns ticket) (formed : WellFormed turns)
    (member : order ∈ turns) :
    (s.queues order.place).find? (·.ticket = ticket order.orderRef) =
      some (waiting ticket order) := by
  have found : (turns.filter (·.place = order.place)).find?
      ((fun resting : Resting => decide (resting.ticket = ticket order.orderRef)) ∘
        waiting ticket) = some order := by
    rw [List.find?_eq_some_iff_append]
    refine ⟨by simp [waiting], ?_⟩
    have listed : order ∈ turns.filter (·.place = order.place) :=
      List.mem_filter.mpr ⟨member, by simp⟩
    obtain ⟨xs, ys, split⟩ := List.append_of_mem listed
    refine ⟨xs, ys, split, fun other front => ?_⟩
    have inside : other ∈ turns.filter (·.place = order.place) := by simp [split, front]
    have once : (turns.filter (·.place = order.place)).Nodup :=
      (List.Nodup.of_map _ formed.distinct).filter _
    rw [split] at once
    have differ : other ≠ order := by
      rintro rfl
      exact (List.nodup_append.mp once).2.2 other front other List.mem_cons_self rfl
    have present := (List.mem_filter.mp inside).1
    have apart : ticket other.orderRef ≠ ticket order.orderRef := fun same =>
      differ (formed.eq_of_ref present member (mirrors.distinct other present order member same))
    simp [waiting, apart]
  rw [mirrors.queues, List.find?_map, found, Option.map_some]

section Reduced

variable (mirrors : Mirrors s turns ticket) (formed : WellFormed turns) (member : order ∈ turns)
include mirrors formed member

/-- An order that loses a part of its shares keeps its turn. -/
theorem Mirrors.lessen (amount : UInt32) :
    Mirrors { s with
        queues := Function.update s.queues order.place ((s.queues order.place).map fun other =>
          if other.ticket = ticket order.orderRef then { other with qty := other.qty - amount }
          else other) }
      (alter turns order.orderRef fun other =>
        some { other with remaining := other.remaining - amount }) ticket := by
  have kept : ∀ other : LiveOrder, (if other.orderRef = order.orderRef then
      { other with remaining := other.remaining - amount } else other).orderRef = other.orderRef ∧
      (if other.orderRef = order.orderRef then
        { other with remaining := other.remaining - amount } else other).place = other.place := by
    intro other
    split <;> exact ⟨rfl, rfl⟩
  rw [alter_some]
  refine ⟨?_, ?_, ?_, ?_, mirrors.live.trans (List.length_map _).symm⟩
  · intro p
    have rest : (turns.map fun other => if other.orderRef = order.orderRef then
        { other with remaining := other.remaining - amount } else other).filter (·.place = p) =
        (turns.filter (·.place = p)).map fun other => if other.orderRef = order.orderRef then
          { other with remaining := other.remaining - amount } else other := by
      rw [List.filter_map]
      exact congrArg _ (List.filter_congr fun other _ => by
        simp only [Function.comp_apply, (kept other).2])
    rw [rest]
    simp only [Function.update_apply]
    by_cases here : p = order.place
    · rw [if_pos here, here, mirrors.queues, List.map_map, List.map_map]
      apply List.map_congr_left
      intro other listed
      have inside := (List.mem_filter.mp listed).1
      have ticketed := mirrors.distinct other inside order member
      simp only [Function.comp_apply, waiting]
      by_cases same : other.orderRef = order.orderRef
      · simp [same]
      · simp [same, mt ticketed same]
    · rw [if_neg here, mirrors.queues, List.map_map]
      apply List.map_congr_left
      intro other listed
      obtain ⟨inside, at_place⟩ := List.mem_filter.mp listed
      have apart : other.orderRef ≠ order.orderRef := fun same =>
        here ((of_decide_eq_true at_place).symm.trans
          (congrArg _ (formed.eq_of_ref inside member same)))
      simp [apart]
  · rintro after listed
    obtain ⟨other, inside, rfl⟩ := List.mem_map.mp listed
    rw [(kept other).1, (kept other).2]
    exact mirrors.named other inside
  · rintro after listed
    obtain ⟨other, inside, rfl⟩ := List.mem_map.mp listed
    rw [(kept other).1]
    exact mirrors.issued other inside
  · rintro a listedA b listedB
    obtain ⟨other, insideA, rfl⟩ := List.mem_map.mp listedA
    obtain ⟨another, insideB, rfl⟩ := List.mem_map.mp listedB
    rw [(kept other).1, (kept another).1]
    exact mirrors.distinct other insideA another insideB

/-- When an order leaves, the others keep their turns. -/
theorem Mirrors.leave :
    Mirrors { s with
        queues := Function.update s.queues order.place
          ((s.queues order.place).filter (·.ticket ≠ ticket order.orderRef))
        named := Function.update s.named order.orderRef none
        live := s.live - 1 }
      (alter turns order.orderRef fun _ => none) ticket := by
  have total := sum_alter (fun _ => 1) (fun _ => none) formed.distinct member
  simp only [List.map_const', List.sum_replicate, smul_eq_mul, mul_one, Option.map_none,
    Option.getD_none, alter_none] at total
  rw [alter_none]
  have fewer : s.live - 1 = (turns.filter fun other => other.orderRef ≠ order.orderRef).length := by
    rw [mirrors.live]
    omega
  refine ⟨?_, ?_, ?_, ?_, fewer⟩
  · intro p
    simp only [Function.update_apply]
    by_cases here : p = order.place
    · rw [if_pos here, here, mirrors.queues, List.filter_map, List.filter_filter,
        List.filter_filter]
      refine congrArg _ (List.filter_congr fun other inside => ?_)
      have ticketed := mirrors.distinct other inside order member
      simp only [Function.comp_apply, waiting]
      by_cases same : other.orderRef = order.orderRef
      · simp [same]
      · simp [same, mt ticketed same]
    · rw [if_neg here, mirrors.queues, List.filter_filter]
      refine congrArg _ (List.filter_congr fun other inside => ?_)
      by_cases at_place : other.place = p
      · have apart : other.orderRef ≠ order.orderRef := fun same =>
          here (at_place.symm.trans (congrArg _ (formed.eq_of_ref inside member same)))
        simp [apart, at_place]
      · simp [at_place]
  · intro other listed
    obtain ⟨inside, apart⟩ := List.mem_filter.mp listed
    simp only [Function.update_apply]
    rw [if_neg (of_decide_eq_true apart)]
    exact mirrors.named other inside
  · exact fun other listed => mirrors.issued other (List.mem_filter.mp listed).1
  · exact fun a listedA b listedB =>
      mirrors.distinct a (List.mem_filter.mp listedA).1 b (List.mem_filter.mp listedB).1

theorem Mirrors.reduce (chosen : taken order.remaining qty deleteAll = amount)
    (enough : amount ≤ order.remaining) (whole : deleteAll = true → amount = order.remaining) :
    Mirrors (s.reduce order.orderRef qty deleteAll)
      (alter turns order.orderRef (·.without amount)) ticket := by
  simp only [PriorityBook.reduce, mirrors.named order member, mirrors.find formed member]
  simp only [waiting, chosen]
  have only : ∀ other ∈ turns, other.orderRef = order.orderRef → other = order :=
    fun other inside same => formed.eq_of_ref inside member same
  by_cases more : amount < order.remaining
  · have stays : ¬ (order.remaining - amount = 0 ∨ deleteAll = true) := by
      rintro (used | gone)
      · have less := UInt32.lt_iff_toNat_lt.mp more
        have zero := congrArg UInt32.toNat used
        rw [UInt32.toNat_sub_of_le _ _ enough, UInt32.toNat_zero] at zero
        omega
      · exact absurd (whole gone ▸ more) (UInt32.lt_irrefl _)
    have changed : alter turns order.orderRef (·.without amount) =
        alter turns order.orderRef fun other =>
          some { other with remaining := other.remaining - amount } :=
      alter_congr fun other inside same => by
        rw [only other inside same, LiveOrder.without, if_pos more]
    rw [if_neg stays, changed]
    exact mirrors.lessen formed member amount
  · have all : amount = order.remaining := UInt32.le_antisymm enough (UInt32.not_lt.mp more)
    have gone : order.remaining - amount = 0 ∨ deleteAll = true :=
      .inl (by rw [all, UInt32.sub_self])
    have changed : alter turns order.orderRef (·.without amount) =
        alter turns order.orderRef fun _ => none :=
      alter_congr fun other inside same => by
        rw [only other inside same, LiveOrder.without, if_neg more]
    rw [if_pos gone, changed]
    exact mirrors.leave formed member

end Reduced

/-- The replacement of an order gives up its turn. -/
theorem Mirrors.replace (mirrors : Mirrors s turns ticket) (formed : WellFormed turns)
    (member : order ∈ turns) {newRef : UInt64} {shares price : UInt32} (room : s.live ≤ capacity)
    (fresh : ∀ other ∈ turns, other.orderRef ≠ newRef) (venue : ev.venue = .nasdaq)
    (old : ev.referenceOrderId = order.orderRef) (unsided : ev.side = .unknown)
    (brings : OrderBookEngine.Brings { ev with side := order.side }
      (order.replacedBy newRef shares price)) :
    ∃ tickets, Mirrors (s.replace capacity ev)
      (turn turns (.replace order.orderRef newRef shares price)) tickets := by
  have whole : taken order.remaining 0 true = order.remaining := rfl
  have left := leave_eq_take formed member
  have reduced := mirrors.reduce formed member whole (UInt32.le_refl _) fun _ => rfl
  rw [← left] at reduced
  have fewer : (alter turns order.orderRef fun _ => none).length + 1 = turns.length := by
    have total := sum_alter (fun _ => 1) (fun _ => none) formed.distinct member
    simpa using total
  have room' : (s.reduce order.orderRef 0 true).live < capacity := by
    have count : s.live = turns.length := mirrors.live
    rw [reduced.live]
    simp only [step]
    omega
  have unseen : ∀ other ∈ step turns (.leave order.orderRef), other.orderRef ≠ newRef := by
    intro other listed
    simp only [step, alter_none] at listed
    exact fresh other (List.mem_filter.mp listed).1
  have added := reduced.add brings (formed.known order member) room' unseen
  have found : s.named ev.referenceOrderId = some (ticket order.orderRef, order.place) :=
    old ▸ mirrors.named order member
  simp only [PriorityBook.replace, venue, OrderBookEngine.orderKey_nasdaq, found, unsided, if_true]
  rw [turn, formed.filter_ref member, List.map_singleton, old]
  exact ⟨_, venue ▸ added⟩

end PriorityBook

namespace IntrusiveOrderBook

variable {capacity : Nat} {b : IntrusiveOrderBook capacity} {s : PriorityBook} {ev : BookEvent}

theorem SameTurns.live_le (same : SameTurns b s) : s.live ≤ capacity := by
  obtain ⟨free, queue, ticket, follows⟩ := same
  have count := follows.rep.pool.count
  rw [follows.live]
  omega

/-- An order that is not refused found room. -/
theorem SameTurns.room (same : SameTurns b s) (proper : capacity ≤ kNull.toNat)
    (accepted : (b.onEvent ev).2.orderPoolExhausted = false) (adds : ev.type.adds = true)
    (nonzero : ev.orderId ≠ 0) (known : ev.side ≠ .unknown) : s.live < capacity := by
  obtain ⟨free, queue, ticket, follows⟩ := same
  have count := follows.rep.pool.count
  have taken : (b.addOrder ev).2.1 = true := by
    simp only [onEvent, apply] at accepted
    cases kind : ev.type
    case add | addMpid => simpa [kind, nonzero] using accepted
    all_goals exact absurd adds (by rw [kind]; decide)
  rcases follows.rep.addOrder_cases proper (.inl rfl) ev with ⟨unsided, _⟩ | ⟨_, _, refused⟩ |
    ⟨_, i, rest, rfl, _⟩
  · exact absurd unsided known
  · rw [refused] at taken
    cases taken
  · rw [List.length_cons] at count
    rw [follows.live]
    omega

end IntrusiveOrderBook

/-- The intrusive book behind the parser, with the turns of the messages so far. -/
structure PriorityFeed (capacity : Nat) where
  turns : List LiveOrder := []
  book : IntrusiveOrderBook capacity
  stats : ParseStats := {}

namespace PriorityFeed

open OrderLife

variable {capacity : Nat}

def create (capacity : Nat) : PriorityFeed capacity where
  book := .create capacity

def parsed (s : PriorityFeed capacity) (p : ItchPacket) : Option BookEvent × ParseStats :=
  Itch50.parseMessage p.message.encode p.sequence p.ingestTsNs s.stats

def step (s : PriorityFeed capacity) (p : ItchPacket) : PriorityFeed capacity where
  turns := turn s.turns p.message.action
  book :=
    match (s.parsed p).1 with
    | none => s.book
    | some ev => (s.book.onEvent ev).1
  stats := (s.parsed p).2

/-- A valid order life whose orders the pool has room for. -/
def Admissible (s : PriorityFeed capacity) (p : ItchPacket) : Prop :=
  Valid s.turns p.message.action ∧
    ∀ ev, (s.parsed p).1 = some ev → (s.book.onEvent ev).2.orderPoolExhausted = false

/-- The messages that say to the book what they say to the exchange: taking nothing is read
as taking all, and the replacement enters under the blank symbol. -/
def Plain (turns : List LiveOrder) : OrderAction → Prop
  | .enter _ => True
  | .take _ shares => 0 < shares
  | .leave _ => True
  | .replace orderRef _ _ _ => ∀ order ∈ turns, order.orderRef = orderRef → order.symbol = {}

instance (turns : List LiveOrder) : (action : OrderAction) → Decidable (Plain turns action)
  | .enter _ => inferInstanceAs (Decidable True)
  | .take _ _ => inferInstanceAs (Decidable (_ < _))
  | .leave _ => inferInstanceAs (Decidable True)
  | .replace _ _ _ _ => inferInstanceAs (Decidable (∀ _ ∈ turns, _ → _))

variable {s : PriorityFeed capacity} {p : ItchPacket}

theorem parsed_eq (s : PriorityFeed capacity) (p : ItchPacket) :
    s.parsed p = (some (p.message.event p.sequence p.ingestTsNs),
      s.stats.parsed p.message.type) :=
  Itch50.parseMessage_encode _ _ _ _

@[simp] theorem step_turns (s : PriorityFeed capacity) (p : ItchPacket) :
    (s.step p).turns = turn s.turns p.message.action := rfl

theorem step_book (s : PriorityFeed capacity) (p : ItchPacket) :
    (s.step p).book = s.book.step (p.message.event p.sequence p.ingestTsNs) := by
  simp only [step]
  rw [parsed_eq]
  rfl

theorem admissible_iff : s.Admissible p ↔ Valid s.turns p.message.action ∧
    (s.book.onEvent (p.message.event p.sequence p.ingestTsNs)).2.orderPoolExhausted = false := by
  refine ⟨fun ok => ⟨ok.1, ok.2 _ (by rw [parsed_eq])⟩, fun ok => ⟨ok.1, ?_⟩⟩
  rw [parsed_eq]
  rintro ev ⟨⟩
  exact ok.2

/-- Shares taken by an execution or a cancel. -/
theorem mirrors_take {b : PriorityBook} {turns : List LiveOrder} {ticket : UInt64 → Nat}
    {orderRef : UInt64} {shares : UInt32} (mirrors : b.Mirrors turns ticket)
    (formed : WellFormed turns) (valid : Valid turns (.take orderRef shares))
    (positive : 0 < shares) :
    (b.reduce orderRef shares false).Mirrors (turn turns (.take orderRef shares)) ticket := by
  obtain ⟨order, member, rfl, enough⟩ := valid
  have part : ¬ (shares = 0 ∨ shares > order.remaining) := by
    rintro (none | more)
    · exact absurd (none ▸ positive) (UInt32.lt_irrefl _)
    · exact UInt32.not_lt.mpr enough more
  have chosen : PriorityBook.taken order.remaining shares false = shares := by
    simp only [PriorityBook.taken, Bool.false_eq_true, false_or, if_neg part]
  exact mirrors.reduce formed member chosen enough (by nofun)

theorem event_brings {message : ItchMessage} {order : LiveOrder} (sequence ingestTsNs : UInt64)
    (enters : message.action = .enter order) :
    (message.event sequence ingestTsNs).type.adds = true ∧
      OrderBookEngine.Brings (message.event sequence ingestTsNs) order := by
  cases message with
  | addOrder header add | addOrderMpid header add attribution =>
    cases enters
    exact ⟨rfl, rfl, rfl, rfl, rfl, rfl, rfl⟩
  | _ => cases enters

/-- Step lemma for the book of tickets. -/
theorem mirrors_step {b : PriorityBook} {turns : List LiveOrder} {ticket : UInt64 → Nat}
    {message : ItchMessage} {sequence ingestTsNs : UInt64} (mirrors : b.Mirrors turns ticket)
    (formed : WellFormed turns) (valid : Valid turns message.action)
    (plain : Plain turns message.action) (within : b.live ≤ capacity)
    (room : ∀ order, message.action = .enter order → b.live < capacity) :
    ∃ tickets, (b.onEvent capacity (message.event sequence ingestTsNs)).Mirrors
      (turn turns message.action) tickets := by
  have key : ∀ orderRef, OrderBookEngine.orderKey .nasdaq orderRef = orderRef :=
    OrderBookEngine.orderKey_nasdaq
  have entered : ∀ order, message.action = .enter order →
      ∃ tickets, (b.onEvent capacity (message.event sequence ingestTsNs)).Mirrors
        (turn turns message.action) tickets := by
    intro order enters
    obtain ⟨adds, brings⟩ := event_brings sequence ingestTsNs enters
    rw [enters] at valid ⊢
    obtain ⟨⟨nonzero, _, fresh⟩, known, _⟩ := valid
    rw [PriorityBook.onEvent_adds adds (brings.ref ▸ nonzero)]
    exact ⟨_, mirrors.add brings known (room order enters) fresh⟩
  cases message with
  | addOrder header add | addOrderMpid header add attribution => exact entered add.order rfl
  | orderExecuted header orderRef shares matchNumber
  | orderExecutedPrice header orderRef shares matchNumber printable price
  | orderCancel header orderRef shares =>
    simp only [PriorityBook.onEvent, ItchMessage.event, key]
    exact ⟨ticket, mirrors_take mirrors formed valid plain⟩
  | orderDelete header orderRef =>
    obtain ⟨order, member, rfl⟩ := valid
    simp only [PriorityBook.onEvent, ItchMessage.event, key]
    have gone := leave_eq_take formed member
    exact ⟨ticket, (show turn turns (.leave order.orderRef) = _ from gone) ▸
      mirrors.reduce formed member rfl (UInt32.le_refl _) fun _ => rfl⟩
  | orderReplace header orderRef newRef shares price =>
    obtain ⟨⟨order, member, rfl⟩, ⟨_, _, fresh⟩, _⟩ := valid
    have blank : order.symbol = {} := plain order member rfl
    simp only [PriorityBook.onEvent, ItchMessage.event]
    exact mirrors.replace formed member within fresh rfl rfl rfl
      ⟨rfl, rfl, blank.symm, rfl, rfl, rfl⟩

/-- The book stands to its turns as the book of tickets does. -/
structure Served (s : PriorityFeed capacity) : Prop where
  formed : WellFormed s.turns
  book : ∃ b, IntrusiveOrderBook.SameTurns s.book b ∧ ∃ ticket, b.Mirrors s.turns ticket

theorem Served.step (proper : capacity ≤ IntrusiveOrderBook.kNull.toNat) (served : s.Served)
    (admissible : s.Admissible p) (plain : Plain s.turns p.message.action) : (s.step p).Served := by
  obtain ⟨formed, b, same, ticket, mirrors⟩ := served
  obtain ⟨valid, unfilled⟩ := admissible_iff.mp admissible
  refine ⟨formed.turn valid, _, step_book s p ▸ same.step proper _, ?_⟩
  refine mirrors_step mirrors formed valid plain same.live_le fun order enters => ?_
  obtain ⟨adds, brings⟩ := event_brings p.sequence p.ingestTsNs enters
  rw [enters] at valid
  obtain ⟨⟨nonzero, _, _⟩, known, _⟩ := valid
  exact same.room proper unfilled adds (brings.ref ▸ nonzero) (brings.side ▸ known)

/-- Run lemma. -/
theorem Served.run (proper : capacity ≤ IntrusiveOrderBook.kNull.toNat) {packets : List ItchPacket}
    (served : s.Served) (admissible : Run.Along PriorityFeed.step Admissible s packets)
    (plain : Run.Along PriorityFeed.step (fun s p => Plain s.turns p.message.action) s packets) :
    (packets.foldl PriorityFeed.step s).Served :=
  (admissible.and plain).invariant (P := Served)
    (fun _ _ served ok => served.step proper ok.1 ok.2) served

theorem create_served (proper : capacity ≤ IntrusiveOrderBook.kNull.toNat) :
    (create capacity).Served where
  formed := ⟨List.nodup_nil, by simp [create], by simp [create]⟩
  book := ⟨{}, IntrusiveOrderBook.create_sameTurns proper, fun _ => 0, fun _ => rfl,
    by simp [create], by simp [create], by simp [create], rfl⟩

/-- The turns are the live orders of the messages. -/
theorem turns_perm (packets : List ItchPacket) {live : List LiveOrder} (same : s.turns.Perm live) :
    (packets.foldl step s).turns.Perm
      (packets.foldl (fun live p => OrderLife.step live p.message.action) live) := by
  have along : Run.Along step (fun _ _ => True) s packets :=
    Run.along_of_forall _ _ fun _ _ => trivial
  exact along.simulation (R := fun (s : PriorityFeed capacity) live => s.turns.Perm live)
    (fun _ _ p same _ => turn_perm same p.message.action) same

theorem run_book (packets : List ItchPacket) : (packets.foldl step s).book =
    (packets.map fun p => p.message.event p.sequence p.ingestTsNs).foldl
      IntrusiveOrderBook.step s.book := by
  induction packets generalizing s with
  | nil => rfl
  | cons p rest ih => simp only [List.foldl_cons, List.map_cons, ih, step_book]

/-- New orders and replacements of a valid order life have shares. -/
theorem event_bringsQty {turns : List LiveOrder} {message : ItchMessage}
    {sequence ingestTsNs : UInt64} (valid : Valid turns message.action) :
    IntrusiveOrderBook.BringsQty (message.event sequence ingestTsNs) := by
  rintro (adds | replaces)
  · cases message with
    | addOrder header add | addOrderMpid header add attribution => exact valid.2.2
    | _ => cases adds
  · cases message with
    | orderReplace header orderRef newRef shares price => exact valid.2.2
    | _ => cases replaces

theorem place_eq_iff {order : LiveOrder} {symbol : SymbolKey} {side : Side} {price : UInt32} :
    order.place = ⟨.nasdaq, symbol.asU64, side, price⟩ ↔
      order.symbol = symbol ∧ order.side = side ∧ order.price = price := by
  simp [LiveOrder.place, SymbolKey.asU64_inj]

/-- The orders that wait at a price, first come first. -/
def waitingAt (s : PriorityFeed capacity) (symbol : SymbolKey) (side : Side) (price : UInt32) :
    List LiveOrder :=
  s.turns.filter fun order => order.place = ⟨.nasdaq, symbol.asU64, side, price⟩

theorem restingShares_waitingAt (s : PriorityFeed capacity) (symbol : SymbolKey) (side : Side)
    (price : UInt32) : restingShares s.turns symbol side price =
      ((s.waitingAt symbol side price).map fun order => order.remaining.toNat).sum := by
  simp only [restingShares, waitingAt]
  induction s.turns with
  | nil => rfl
  | cons first rest ih =>
    rw [List.map_cons, List.sum_cons, ih, List.filter_cons, sharesAt]
    by_cases here : first.place = ⟨.nasdaq, symbol.asU64, side, price⟩
    · rw [if_pos (place_eq_iff.mp here), if_pos (decide_eq_true here)]
      rfl
    · rw [if_neg (mt place_eq_iff.mpr here), if_neg (by simpa using here), Nat.zero_add]

/-- The prices of the orders on one side of a symbol. -/
def prices (s : PriorityFeed capacity) (symbol : SymbolKey) (side : Side) : List UInt32 :=
  (s.turns.filter fun order => order.symbol = symbol ∧ order.side = side).map (·.price)

/-- The book shows the orders that wait, price by price and in their turns, and its best prices
are the best of theirs. -/
structure InTurn (s : PriorityFeed capacity) : Prop where
  queue : ∀ symbol side price, side ≠ .unknown →
    (s.book.queueAt ⟨.nasdaq, symbol.asU64, side, price⟩).map (fun node => (node.key, node.qty)) =
      (s.waitingAt symbol side price).map fun order => (order.orderRef, order.remaining)
  level : ∀ symbol side price, side ≠ .unknown →
    (s.book.levelOr ⟨.nasdaq, symbol.asU64, side, price⟩).qty.toNat =
      restingShares s.turns symbol side price
  ahead : ∀ p order, p.message.action = .enter order → s.Admissible p →
    (s.book.onEvent (p.message.event p.sequence p.ingestTsNs)).2.queueAheadBeforeAdd.toNat =
      restingShares s.turns order.symbol order.side order.price
  best : ∀ symbol : SymbolKey, ∀ side, side ≠ .unknown →
    let cached := (s.book.books .nasdaq symbol.asU64).sideBook side
    cached.descending = side.descending ∧ cached.Best (s.prices symbol side)

theorem mirrors_quantity {b : PriorityBook} {ticket : UInt64 → Nat}
    (mirrors : b.Mirrors s.turns ticket) (symbol : SymbolKey) (side : Side) (price : UInt32) :
    b.quantity ⟨.nasdaq, symbol.asU64, side, price⟩ = restingShares s.turns symbol side price := by
  rw [restingShares_waitingAt, PriorityBook.quantity, mirrors.queues, List.map_map]
  rfl

/-- A side has the levels of the prices at which an order waits. -/
theorem mem_levels_iff {b : PriorityBook} {ticket : UInt64 → Nat} {free : List UInt32}
    {queue : Place → List UInt32} {tickets : UInt32 → Nat}
    (follows : IntrusiveOrderBook.Follows s.book b free queue tickets)
    (mirrors : b.Mirrors s.turns ticket) {symbol : SymbolKey} {side : Side}
    (known : side ≠ .unknown) (price : UInt32) :
    price ∈ ((s.book.books .nasdaq symbol.asU64).sideBook side).levels.keys ↔
      price ∈ s.prices symbol side := by
  have queued : (s.waitingAt symbol side price).map (PriorityBook.waiting ticket) =
      (queue ⟨.nasdaq, symbol.asU64, side, price⟩).map
        (IntrusiveOrderBook.resting s.book.nodes tickets) :=
    (mirrors.queues _).symm.trans (follows.queues _)
  have missing := follows.rep.levels.level_iff ⟨.nasdaq, symbol.asU64, side, price⟩ known
  rw [IntrusiveOrderBook.SideBook.mem_keys, ← Option.ne_none_iff_exists']
  have empty : queue ⟨.nasdaq, symbol.asU64, side, price⟩ = [] ↔
      s.waitingAt symbol side price = [] := by
    rw [← List.map_eq_nil_iff (f := PriorityBook.waiting ticket), queued, List.map_eq_nil_iff]
  refine (not_congr (missing.trans (empty.trans List.eq_nil_iff_forall_not_mem))).trans ?_
  rw [not_forall_not]
  simp only [waitingAt, prices, List.mem_filter, List.mem_map, decide_eq_true_eq, place_eq_iff]
  constructor
  · rintro ⟨order, member, own, sided, priced⟩
    exact ⟨order, ⟨member, own, sided⟩, priced⟩
  · rintro ⟨order, ⟨member, own, sided⟩, priced⟩
    exact ⟨order, member, own, sided, priced⟩

theorem Served.inTurn (proper : capacity ≤ IntrusiveOrderBook.kNull.toNat) (served : s.Served)
    (cached : s.book.Cached) : s.InTurn := by
  obtain ⟨formed, b, same, ticket, mirrors⟩ := served
  have room := fun ev => @IntrusiveOrderBook.SameTurns.room _ _ _ ev same proper
  obtain ⟨free, queue, tickets, follows⟩ := same
  refine ⟨?_, ?_, ?_, ?_⟩
  · intro symbol side price known
    rw [follows.queueAt proper known, mirrors.queues, List.map_map]
    rfl
  · intro symbol side price known
    rw [follows.quantity known, mirrors_quantity mirrors]
  · intro p order enters admissible
    obtain ⟨valid, unfilled⟩ := admissible_iff.mp admissible
    obtain ⟨adds, brings⟩ := event_brings p.sequence p.ingestTsNs enters
    rw [enters] at valid
    obtain ⟨⟨nonzero, _, _⟩, known, _⟩ := valid
    have takes : IntrusiveOrderBook.Takes capacity b
        (p.message.event p.sequence p.ingestTsNs) := by
      refine ⟨?_, brings.ref ▸ nonzero, brings.side ▸ known,
        room _ unfilled adds (brings.ref ▸ nonzero) (brings.side ▸ known)⟩
      revert adds
      cases (p.message.event p.sequence p.ingestTsNs).type <;> simp [EventType.adds]
    rw [follows.queueAhead proper, if_pos takes, PriorityBook.eventPlace_eq brings]
    exact mirrors_quantity mirrors order.symbol order.side order.price
  · intro symbol side known
    exact ⟨cached.descending ⟨.nasdaq, symbol.asU64, side, 0⟩ known,
      (cached.best ⟨.nasdaq, symbol.asU64, side, 0⟩ known).congr
        (mem_levels_iff follows mirrors known)⟩

/-- From the feed to the book: whatever valid order life arrives, as long as the pool has room,
no message takes zero shares and only orders of the blank symbol are replaced, the book shows
the live orders of every symbol, side and price in the turn in which they arrived, with what is
left of each, and caches their best prices. An order that is added is told what waits ahead. -/
theorem itch_orders_in_turn (capacity : Nat) (small : capacity < 2 ^ 32 - 1)
    (packets : List ItchPacket) (admissible : Run.Along step Admissible (create capacity) packets)
    (plain : Run.Along step (fun s p => Plain s.turns p.message.action) (create capacity) packets) :
    let s := packets.foldl step (create capacity)
    s.InTurn ∧ s.turns.Perm
      (packets.foldl (fun live p => OrderLife.step live p.message.action) []) := by
  intro s
  have proper : capacity ≤ IntrusiveOrderBook.kNull.toNat := small.le
  have full : ∀ ev ∈ packets.map (fun p => p.message.event p.sequence p.ingestTsNs),
      IntrusiveOrderBook.BringsQty ev := by
    intro ev listed
    obtain ⟨p, member, rfl⟩ := List.mem_map.mp listed
    obtain ⟨before, after, rfl⟩ := List.append_of_mem member
    exact event_bringsQty admissible.at_step.1
  have cached : s.book.Cached := by
    rw [show s.book = _ from run_book packets]
    exact IntrusiveOrderBook.run_cached capacity _ (.inl small) full
  exact ⟨((create_served proper).run proper admissible plain).inTurn proper cached,
    turns_perm packets (.refl _)⟩

/-- Two orders of a stock at one price, of which the first trades and the second is deleted. -/
theorem itch_orders_in_turn_trade :
    let packets := [ItchFeed.addBuy 1 ItchFeed.stockAapl, ItchFeed.addBuy 2 ItchFeed.stockAapl,
      ItchFeed.executeOrder 1 30, ItchFeed.deleteOrder 2]
    let s := packets.foldl step (create 4)
    s.InTurn ∧ s.turns.Perm
      (packets.foldl (fun live p => OrderLife.step live p.message.action) []) := by
  refine itch_orders_in_turn 4 (by decide) _ ?_ ?_
  · simp only [Run.along_cons, Run.along_nil, admissible_iff]
    decide +kernel
  · simp only [Run.along_cons, Run.along_nil]
    decide +kernel

end PriorityFeed
end FeedHandler
