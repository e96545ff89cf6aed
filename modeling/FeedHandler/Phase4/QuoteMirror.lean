import FeedHandler.Phase4.SimMatchingInvariant
import FeedHandler.Phase4.Strategy

/-! Quotes and the orders that stand for them. A strategy has at most one quote on a side of
a symbol; as long as it cancels a quote before it submits the next one, the simulated engine
holds exactly one order for each quote, and a print fills at most one of them. -/
namespace FeedHandler

open PriorityAllocation SimMatchingEngine

structure StrategyQuote where
  orderId : Nat
  price : Int
  deriving DecidableEq, Repr

/-- What a strategy quotes on each side of each symbol. -/
abbrev Quotes := UInt64 → OrderSide → Option StrategyQuote

namespace Quotes

def set (quotes : Quotes) (symbol : UInt64) (side : OrderSide) (quote : Option StrategyQuote) :
    Quotes :=
  fun key other => if key = symbol ∧ other = side then quote else quotes key other

@[simp] theorem set_self (quotes : Quotes) (symbol : UInt64) (side : OrderSide)
    (quote : Option StrategyQuote) : quotes.set symbol side quote symbol side = quote :=
  if_pos ⟨rfl, rfl⟩

theorem set_of_ne {quotes : Quotes} {symbol key : UInt64} {side other : OrderSide}
    {quote : Option StrategyQuote} (differ : ¬ (key = symbol ∧ other = side)) :
    quotes.set symbol side quote key other = quotes key other :=
  if_neg differ

theorem of_set {quotes : Quotes} {symbol key : UInt64} {side other : OrderSide}
    {quote : Option StrategyQuote} {q : StrategyQuote}
    (quoted : quotes.set symbol side quote key other = some q) :
    (key = symbol ∧ other = side ∧ quote = some q) ∨
      (¬ (key = symbol ∧ other = side) ∧ quotes key other = some q) := by
  by_cases here : key = symbol ∧ other = side
  · rw [here.1, here.2, set_self] at quoted
    exact Or.inl ⟨here.1, here.2, quoted⟩
  · rw [set_of_ne here] at quoted
    exact Or.inr ⟨here, quoted⟩

/-- A quote is kept or dropped. -/
def settle (quotes : Quotes) (symbol : UInt64) (side : OrderSide) (q : StrategyQuote)
    (keeps : Bool) : Quotes := quotes.set symbol side (if keeps then some q else none)

theorem eq_settle {quotes later : Quotes} {symbol : UInt64} {side : OrderSide} {q : StrategyQuote}
    {keeps : Bool} (own : later symbol side = if keeps then some q else none)
    (frame : ∀ key other, ¬ (key = symbol ∧ other = side) → later key other = quotes key other) :
    later = quotes.settle symbol side q keeps := by
  funext key other
  rw [settle]
  by_cases here : key = symbol ∧ other = side
  · rw [here.1, here.2, set_self, own]
  · rw [set_of_ne here, frame key other here]

/-- A quote that is left is the one that was kept, or another one. -/
theorem settle_cases {quotes : Quotes} {symbol key : UInt64} {side other : OrderSide}
    {q r : StrategyQuote} {keeps : Bool}
    (left : quotes.settle symbol side q keeps key other = some r) :
    (key = symbol ∧ other = side ∧ r = q ∧ keeps = true) ∨
      (¬ (key = symbol ∧ other = side) ∧ quotes key other = some r) := by
  rcases of_set left with ⟨here, there, kept⟩ | elsewhere
  · split at kept
    · next open_ => exact Or.inl ⟨here, there, (Option.some.inj kept).symm, open_⟩
    · cases kept
  · exact Or.inr elsewhere

theorem of_settle {quotes : Quotes} {symbol key : UInt64} {side other : OrderSide}
    {q r : StrategyQuote} {keeps : Bool} (quoted : quotes symbol side = some q)
    (left : quotes.settle symbol side q keeps key other = some r) : quotes key other = some r := by
  rcases settle_cases left with ⟨rfl, rfl, rfl, -⟩ | ⟨-, kept⟩
  · exact quoted
  · exact kept

end Quotes

/-- The calls for a symbol that lead from some quotes and a next order id to others: cancels
of quotes, and submissions under the next id where nothing is quoted. -/
inductive Requoting (size : Nat) (symbol : UInt64) :
    Quotes → Nat → List RouterCall → Quotes → Nat → Prop
  | nil {quotes : Quotes} {next : Nat} : Requoting size symbol quotes next [] quotes next
  | cancel {quotes later : Quotes} {next last : Nat} {calls : List RouterCall} {side : OrderSide}
      {quote : StrategyQuote} {tsNs : UInt64} (quoted : quotes symbol side = some quote)
      (rest : Requoting size symbol (quotes.set symbol side none) next calls later last) :
      Requoting size symbol quotes next (.cancel quote.orderId tsNs :: calls) later last
  | submit {quotes later : Quotes} {next last : Nat} {calls : List RouterCall} {side : OrderSide}
      {price : Int} {tsNs : UInt64} (free : quotes symbol side = none)
      (rest : Requoting size symbol (quotes.set symbol side (some ⟨next, price⟩)) (next + 1) calls
        later last) :
      Requoting size symbol quotes next (.submit symbol side price size tsNs next :: calls) later
        last

/-- Both quotes of a symbol replaced: the prices of the new ones, where there are any. -/
structure Replacement where
  symbol : UInt64
  bid : Option Int
  ask : Option Int
  tsNs : UInt64
  deriving DecidableEq, Repr

namespace Replacement

def price (p : Replacement) : OrderSide → Option Int
  | .buy => p.bid
  | .sell => p.ask

/-- The id of the new quote of a side; the bid comes first. -/
def orderId (p : Replacement) (next : Nat) : OrderSide → Nat
  | .buy => next
  | .sell => if p.bid.isSome then next + 1 else next

theorem le_orderId (p : Replacement) (next : Nat) (side : OrderSide) :
    next ≤ p.orderId next side := by
  cases side with
  | buy => exact le_refl next
  | sell =>
    simp only [orderId]
    split
    · exact Nat.le_succ next
    · exact le_refl next

def last (p : Replacement) (next : Nat) : Nat :=
  if p.ask.isSome then p.orderId next .sell + 1 else p.orderId next .sell

def quote (p : Replacement) (next : Nat) (side : OrderSide) : Option StrategyQuote :=
  (p.price side).map fun price => ⟨p.orderId next side, price⟩

/-- The quotes after the replacement. -/
def quotes (p : Replacement) (before : Quotes) (next : Nat) : Quotes :=
  fun key side => if key = p.symbol then p.quote next side else before key side

/-- The submission of the new quote of a side. -/
def submits (p : Replacement) (size next : Nat) (side : OrderSide) : List RouterCall :=
  match p.price side with
  | none => []
  | some price => [.submit p.symbol side price size p.tsNs (p.orderId next side)]

end Replacement

/-- The cancel of a quote, if there is one. -/
def cancelCalls (quote : Option StrategyQuote) (tsNs : UInt64) : List RouterCall :=
  match quote with
  | none => []
  | some q => [.cancel q.orderId tsNs]

/-- The calls of a replacement: the old quotes are cancelled before the new ones come. -/
def Replacement.calls (p : Replacement) (size : Nat) (before : Quotes) (next : Nat) :
    List RouterCall :=
  cancelCalls (before p.symbol .buy) p.tsNs ++ cancelCalls (before p.symbol .sell) p.tsNs ++
    p.submits size next .buy ++ p.submits size next .sell

/-- What a strategy does at an event: it replaces the quotes of a symbol, or nothing. -/
structure Move (size : Nat) (before : Quotes) (next : Nat) (replacement : Option Replacement)
    (calls : List RouterCall) (later : Quotes) (last : Nat) : Prop where
  calls_eq : calls = (replacement.map fun p => p.calls size before next).getD []
  quotes_eq : later = (replacement.map fun p => p.quotes before next).getD before
  last_eq : last = (replacement.map fun p => p.last next).getD next

section Requoting

variable {size next last : Nat} {before later : Quotes} {symbol : UInt64} {side : OrderSide}
  {calls : List RouterCall}

theorem Requoting.cancels (side : OrderSide) (tsNs : UInt64)
    (rest : Requoting size symbol (before.set symbol side none) next calls later last) :
    Requoting size symbol before next (cancelCalls (before symbol side) tsNs ++ calls) later
      last := by
  cases quoted : before symbol side with
  | some q => exact .cancel quoted rest
  | none =>
    have idle : before.set symbol side none = before := by
      funext key other
      by_cases here : key = symbol ∧ other = side
      · rw [here.1, here.2, Quotes.set_self, quoted]
      · exact Quotes.set_of_ne here
    exact idle ▸ rest

/-- The submission of a new quote, if there is one, where nothing is quoted. -/
theorem Requoting.places {p : Replacement} {start id : Nat} (side : OrderSide)
    (free : before p.symbol side = none) (here : p.orderId start side = id)
    (rest : Requoting size p.symbol (before.set p.symbol side (p.quote start side))
      (if (p.price side).isSome then id + 1 else id) calls later last) :
    Requoting size p.symbol before id (p.submits size start side ++ calls) later last := by
  simp only [Replacement.submits]
  cases price : p.price side with
  | some amount =>
    simp only [here, List.cons_append, List.nil_append]
    refine .submit free ?_
    simpa only [Replacement.quote, price, Option.map_some, Option.isSome_some, if_true, here]
      using rest
  | none =>
    have idle : before.set p.symbol side (p.quote start side) = before := by
      funext key other
      by_cases there : key = p.symbol ∧ other = side
      · rw [there.1, there.2, Quotes.set_self, free, Replacement.quote, price]
        rfl
      · exact Quotes.set_of_ne there
    simpa only [price, idle, Option.isSome_none, Bool.false_eq_true, if_false,
      List.nil_append] using rest

/-- The calls of a replacement lead to its quotes. -/
theorem Replacement.requoting (p : Replacement) (size : Nat) (before : Quotes) (next : Nat) :
    Requoting size p.symbol before next (p.calls size before next) (p.quotes before next)
      (p.last next) := by
  have done : (((before.set p.symbol .buy none).set p.symbol .sell none).set p.symbol .buy
      (p.quote next .buy)).set p.symbol .sell (p.quote next .sell) = p.quotes before next := by
    funext key other
    by_cases here : key = p.symbol
    · cases other <;> simp [Quotes.set, Replacement.quotes, here]
    · simp [Quotes.set, Replacement.quotes, here]
  have sell : before p.symbol .sell = before.set p.symbol .buy none p.symbol .sell :=
    (Quotes.set_of_ne (by simp)).symm
  rw [Replacement.calls, List.append_assoc, List.append_assoc,
    ← List.append_nil (p.submits _ _ .sell)]
  refine .cancels .buy p.tsNs ?_
  rw [sell]
  refine .cancels .sell p.tsNs (.places .buy ?_ rfl (.places .sell ?_ rfl ?_))
  · rw [Quotes.set_of_ne (by simp), Quotes.set_self]
  · rw [Quotes.set_of_ne (by simp), Quotes.set_self]
  · exact done ▸ .nil

end Requoting

/-- The engine together with the map in which its owner keeps the symbols of the orders. -/
structure OrderDesk where
  engine : SimMatchingEngine := {}
  orderToSymbol : Nat → Option UInt64 := fun _ => none

namespace OrderDesk

def route (sorts : SideSorts) (desk : OrderDesk) : RouterCall → OrderDesk
  | .submit symbol side price qty tsNs orderId =>
    { engine :=
        (desk.engine.bindOrderSymbol orderId symbol).submit sorts side price qty orderId tsNs
      orderToSymbol := Function.update desk.orderToSymbol orderId (some symbol) }
  | .cancel orderId _ =>
    { engine := desk.engine.cancel orderId
      orderToSymbol := Function.update desk.orderToSymbol orderId none }

/-- The owner forgets an order that is filled. -/
def settle (bound : Nat → Option UInt64) (fill : Fill) : Nat → Option UInt64 :=
  if fill.isPartial = false then Function.update bound fill.orderId none else bound

end OrderDesk

/-- One order rests for a quote, with a quantity up to the size of a quote. -/
def RestsAs (size : Nat) (side : OrderSide) (quote : Option StrategyQuote)
    (resting : List SimOrder) : Prop :=
  match quote with
  | none => resting = []
  | some q => ∃ qty tsNs, 0 < qty ∧ qty ≤ size ∧ resting = [⟨q.orderId, side, q.price, qty, tsNs⟩]

/-- The desk holds the quotes: their orders and no others rest in the engine, each bound to
its symbol on both sides, and the ids from `next` on are free. -/
structure Mirrored (size : Nat) (quotes : Quotes) (next : Nat) (desk : OrderDesk) : Prop where
  sound : Sound desk.engine
  rests : ∀ symbol side, RestsAs size side (quotes symbol side) (desk.engine.orders symbol side)
  bound : ∀ symbol side q, quotes symbol side = some q →
    desk.orderToSymbol q.orderId = some symbol
  started : 0 < next
  numbered : ∀ symbol side q, quotes symbol side = some q → 0 < q.orderId ∧ q.orderId < next

namespace Mirrored

variable {size next last : Nat} {quotes later : Quotes} {desk : OrderDesk} {symbol key : UInt64}
  {side other : OrderSide} {q r : StrategyQuote} {sorts : SideSorts}

/-- A desk without orders holds no quotes. -/
theorem of_empty (size : Nat) (empty : ∀ symbol side, quotes symbol side = none) :
    Mirrored size quotes 1 {} := by
  obtain rfl : quotes = fun _ _ => none := funext fun symbol => funext (empty symbol)
  exact {
    sound := initial_sound
    rests := fun _ _ => initial_orders
    bound := fun _ _ _ quoted => by cases quoted
    started := Nat.one_pos
    numbered := fun _ _ _ quoted => by cases quoted }

/-- The order of a quote. -/
theorem order (mirrors : Mirrored size quotes next desk) (quoted : quotes symbol side = some q) :
    ∃ qty tsNs, 0 < qty ∧ qty ≤ size ∧
      desk.engine.orders symbol side = [⟨q.orderId, side, q.price, qty, tsNs⟩] := by
  have rests := mirrors.rests symbol side
  rwa [quoted] at rests

/-- Whatever rests is the order of a quote. -/
theorem quote_of_mem (mirrors : Mirrored size quotes next desk) {o : SimOrder}
    (member : o ∈ desk.engine.orders symbol side) :
    ∃ q, quotes symbol side = some q ∧ o.orderId = q.orderId := by
  cases quoted : quotes symbol side with
  | none =>
    have rests := mirrors.rests symbol side
    rw [quoted] at rests
    rw [rests] at member
    cases member
  | some q =>
    obtain ⟨qty, tsNs, -, -, resting⟩ := mirrors.order quoted
    rw [resting, List.mem_singleton] at member
    exact ⟨q, rfl, congrArg SimOrder.orderId member⟩

/-- Quotes with one id are one quote. -/
theorem unique (mirrors : Mirrored size quotes next desk) (first : quotes symbol side = some q)
    (second : quotes key other = some r) (same : q.orderId = r.orderId) :
    symbol = key ∧ side = other ∧ q = r := by
  obtain ⟨qty, tsNs, -, -, resting⟩ := mirrors.order first
  obtain ⟨size, ts, -, -, held⟩ := mirrors.order second
  have here : (⟨q.orderId, side, q.price, qty, tsNs⟩ : SimOrder) ∈ desk.engine.orders symbol side :=
    resting ▸ List.mem_singleton_self _
  have there : (⟨r.orderId, other, r.price, size, ts⟩ : SimOrder) ∈ desk.engine.orders key other :=
    held ▸ List.mem_singleton_self _
  obtain ⟨place, sides, orders⟩ := mirrors.sound.unique here there same
  refine ⟨place, sides, ?_⟩
  cases q
  cases r
  cases orders
  rfl

/-- No other quote has the id of a quote. -/
theorem alone (mirrors : Mirrored size quotes next desk) (quoted : quotes symbol side = some q)
    (key : UInt64) (other : OrderSide) (r : StrategyQuote) (held : quotes key other = some r)
    (same : r.orderId = q.orderId) : key = symbol ∧ other = side :=
  have place := mirrors.unique held quoted same
  ⟨place.1, place.2.1⟩

/-- The ids from `next` on rest nowhere. -/
theorem absent (mirrors : Mirrored size quotes next desk) {id : Nat} (free : next ≤ id) :
    desk.engine.Absent id := by
  intro symbol side o member same
  obtain ⟨q, quoted, own⟩ := mirrors.quote_of_mem member
  have below := (mirrors.numbered symbol side q quoted).2
  omega

/-- A cancel of a quote leaves the other sides as they are. -/
theorem cancel_frame (mirrors : Mirrored size quotes next desk)
    (quoted : quotes symbol side = some q)
    (elsewhere : ¬ (key = symbol ∧ other = side)) (tsNs : UInt64) :
    (desk.route sorts (.cancel q.orderId tsNs)).engine.orders key other =
      desk.engine.orders key other := by
  simp only [OrderDesk.route, cancel_orders mirrors.sound]
  refine List.filter_eq_self.mpr fun o member => decide_eq_true fun same => ?_
  obtain ⟨r, held, own⟩ := mirrors.quote_of_mem member
  obtain ⟨place, sides, -⟩ := mirrors.unique quoted held (same.symm.trans own)
  exact elsewhere ⟨place.symm, sides.symm⟩

theorem cancel (mirrors : Mirrored size quotes next desk) (quoted : quotes symbol side = some q)
    (tsNs : UInt64) :
    Mirrored size (quotes.set symbol side none) next
      (desk.route sorts (.cancel q.orderId tsNs)) where
  sound := mirrors.sound.cancel q.orderId
  rests := by
    intro key other
    by_cases here : key = symbol ∧ other = side
    · obtain ⟨rfl, rfl⟩ := here
      obtain ⟨qty, ts, -, -, resting⟩ := mirrors.order quoted
      simp only [OrderDesk.route, cancel_orders mirrors.sound]
      rw [Quotes.set_self, resting]
      simp [RestsAs]
    · rw [Quotes.set_of_ne here, mirrors.cancel_frame quoted here]
      exact mirrors.rests key other
  bound := by
    intro key other r held
    rcases Quotes.of_set held with ⟨-, -, gone⟩ | ⟨elsewhere, kept⟩
    · cases gone
    · have differs : r.orderId ≠ q.orderId := fun same =>
        have place := mirrors.unique kept quoted same
        elsewhere ⟨place.1, place.2.1⟩
      simp only [OrderDesk.route]
      rw [Function.update_of_ne differs]
      exact mirrors.bound key other r kept
  started := mirrors.started
  numbered := by
    intro key other r held
    rcases Quotes.of_set held with ⟨-, -, gone⟩ | ⟨-, kept⟩
    · cases gone
    · exact mirrors.numbered key other r kept

theorem submit (mirrors : Mirrored size quotes next desk) (free : quotes symbol side = none)
    (sized : 0 < size) (price : Int) (tsNs : UInt64) :
    Mirrored size (quotes.set symbol side (some ⟨next, price⟩)) (next + 1)
      (desk.route sorts (.submit symbol side price size tsNs next)) := by
  have absent := mirrors.absent (le_refl next)
  have nonzero : next ≠ 0 := Nat.pos_iff_ne_zero.mp mirrors.started
  constructor
  · exact mirrors.sound.place absent nonzero (Nat.pos_iff_ne_zero.mp sized)
  · intro key other
    simp only [OrderDesk.route, place_orders nonzero (Nat.pos_iff_ne_zero.mp sized)]
    by_cases here : key = symbol ∧ other = side
    · have empty : desk.engine.orders symbol side = [] := by
        have rests := mirrors.rests symbol side
        rwa [free] at rests
      have alone : sorts.sort side [⟨next, side, price, size, tsNs⟩] =
          [⟨next, side, price, size, tsNs⟩] := List.perm_singleton.mp (sorts.sort_perm _ _)
      rw [if_pos here, here.1, here.2, Quotes.set_self, empty, List.nil_append, alone]
      exact ⟨size, tsNs, sized, le_refl _, rfl⟩
    · rw [if_neg here, Quotes.set_of_ne here]
      exact mirrors.rests key other
  · intro key other r held
    simp only [OrderDesk.route]
    rcases Quotes.of_set held with ⟨rfl, -, new⟩ | ⟨-, kept⟩
    · obtain rfl := Option.some.inj new
      exact Function.update_self ..
    · have differs : r.orderId ≠ next := Nat.ne_of_lt (mirrors.numbered key other r kept).2
      rw [Function.update_of_ne differs]
      exact mirrors.bound key other r kept
  · exact Nat.succ_pos next
  · intro key other r held
    rcases Quotes.of_set held with ⟨-, -, new⟩ | ⟨-, kept⟩
    · obtain rfl := Option.some.inj new
      exact ⟨mirrors.started, Nat.lt_succ_self next⟩
    · obtain ⟨positive, below⟩ := mirrors.numbered key other r kept
      exact ⟨positive, Nat.lt_succ_of_lt below⟩

/-- The desk follows the strategy from quotes to quotes, and the orders of the other symbols
stay as they are. -/
theorem requote {calls : List RouterCall} (sized : 0 < size)
    (requoting : Requoting size symbol quotes next calls later last)
    (mirrors : Mirrored size quotes next desk) :
    Mirrored size later last (calls.foldl (OrderDesk.route sorts) desk) ∧
      ∀ key other, key ≠ symbol →
        (calls.foldl (OrderDesk.route sorts) desk).engine.orders key other =
          desk.engine.orders key other := by
  induction requoting generalizing desk with
  | nil => exact ⟨mirrors, fun _ _ _ => rfl⟩
  | cancel quoted _ ih =>
    obtain ⟨held, frame⟩ := ih (mirrors.cancel quoted _)
    refine ⟨held, fun key other apart => ?_⟩
    exact (frame key other apart).trans (mirrors.cancel_frame quoted (fun both => apart both.1) _)
  | submit free _ ih =>
    obtain ⟨held, frame⟩ := ih (mirrors.submit free sized _ _)
    refine ⟨held, fun key other apart => (frame key other apart).trans ?_⟩
    have nonzero : _ ≠ 0 := Nat.pos_iff_ne_zero.mp mirrors.started
    simp only [OrderDesk.route, place_orders nonzero (Nat.pos_iff_ne_zero.mp sized)]
    exact if_neg fun both => apart both.1

/-- The desk follows a move of the strategy. -/
theorem move (sorts : SideSorts) {replacement : Option Replacement} {calls : List RouterCall}
    (sized : 0 < size) (moved : Move size quotes next replacement calls later last)
    (mirrors : Mirrored size quotes next desk) :
    Mirrored size later last (calls.foldl (OrderDesk.route sorts) desk) ∧
      ∀ key other, (∀ p ∈ replacement, key ≠ p.symbol) →
        (calls.foldl (OrderDesk.route sorts) desk).engine.orders key other =
          desk.engine.orders key other := by
  obtain ⟨rfl, rfl, rfl⟩ := moved
  cases replacement with
  | none => exact ⟨mirrors, fun _ _ _ => rfl⟩
  | some p =>
    obtain ⟨held, frame⟩ := mirrors.requote sized (p.requoting size quotes next)
    exact ⟨held, fun key other apart => frame key other (apart p rfl)⟩

end Mirrored

/-- The price is within reach of a print. -/
def withinReach (side : OrderSide) (tradePrice price : Int) : Bool :=
  match side with
  | .buy => tradePrice ≤ price
  | .sell => price ≤ tradePrice

/-- A tape event strikes a quote: it is a print that fills the side of the quote, within its
reach. -/
structure Strikes (quotes : Quotes) (ev : BookEvent) (budget : Nat) (side : OrderSide)
    (q : StrategyQuote) : Prop where
  sides : printSide ev budget = some side
  quoted : quotes ev.symbol.asU64 side = some q
  near : withinReach side ev.price.toNat q.price = true

/-- The fill of an order of the given quantity that a print strikes. -/
def strikeFill (ev : BookEvent) (budget : Nat) (side : OrderSide) (q : StrategyQuote) (qty : Nat) :
    Fill where
  orderId := q.orderId
  side := side
  price := ev.price.toNat
  qty := min qty budget
  tsNs := ev.exchangeTsNs
  isPartial := min qty budget < qty

/-- What a print does in the engine that strikes a quote: it takes a share of its order, and
nothing else. -/
structure Struck (size : Nat) (desk : OrderDesk) (ev : BookEvent) (budget : Nat) (side : OrderSide)
    (q : StrategyQuote) (qty : Nat) (tsNs : UInt64) : Prop where
  small : qty ≤ size
  resting : desk.engine.orders ev.symbol.asU64 side = [⟨q.orderId, side, q.price, qty, tsNs⟩]
  taken : 0 < min qty budget
  fills : (desk.engine.onMarketEvent ev budget).2 = [strikeFill ev budget side q qty]
  orders : ∀ key other, (desk.engine.onMarketEvent ev budget).1.orders key other =
    if key = ev.symbol.asU64 ∧ other = side then
      if min qty budget < qty then [⟨q.orderId, side, q.price, qty - min qty budget, tsNs⟩] else []
    else desk.engine.orders key other

namespace Mirrored

variable {size next : Nat} {quotes : Quotes} {desk : OrderDesk} {side : OrderSide}
  {q : StrategyQuote} {ev : BookEvent} {budget : Nat}

/-- A print that strikes no quote leaves every order as it is. -/
theorem unstruck (mirrors : Mirrored size quotes next desk)
    (missed : ∀ side q, ¬ Strikes quotes ev budget side q) :
    let after := desk.engine.onMarketEvent ev budget
    after.2 = [] ∧ (∀ key other, after.1.orders key other = desk.engine.orders key other) ∧
      Mirrored size quotes next { desk with engine := after.1 } := by
  have quiet : (desk.engine.onMarketEvent ev budget).2 = [] ∧ ∀ key other,
      (desk.engine.onMarketEvent ev budget).1.orders key other = desk.engine.orders key other := by
    cases sides : printSide ev budget with
    | none =>
      rw [onMarketEvent_idle sides]
      exact ⟨rfl, fun _ _ => rfl⟩
    | some side =>
      have sized := mirrors.sound.sized ev.symbol.asU64 side
      obtain ⟨fills, -, orders⟩ := onMarketEvent_fills sized sides
      have nothing : desk.engine.given side ev budget =
          (desk.engine.orders ev.symbol.asU64 side).map (fun o => (o, 0)) := by
        rw [given]
        cases quoted : quotes ev.symbol.asU64 side with
        | none =>
          have rests := mirrors.rests ev.symbol.asU64 side
          rw [quoted] at rests
          rw [rests]
          rfl
        | some q =>
          obtain ⟨qty, tsNs, -, -, resting⟩ := mirrors.order quoted
          have far : reaches side ev.price.toNat ⟨q.orderId, side, q.price, qty, tsNs⟩ = false :=
            Bool.eq_false_iff.mpr fun near =>
              missed side q ⟨sides, quoted, by cases side <;> exact near⟩
          rw [resting, shares, allocate, if_pos (Or.inr far)]
      obtain ⟨noFill, kept, -⟩ :=
        zero_shares sized side ev.price.toNat ev.exchangeTsNs (fun _ => none)
      refine ⟨by rw [fills, nothing, noFill], fun key other => ?_⟩
      rw [orders]
      split
      · next here => rw [nothing, kept, here.1, here.2]
      · rfl
  refine ⟨quiet.1, quiet.2, mirrors.sound.print ev budget, ?_, mirrors.bound, mirrors.started,
    mirrors.numbered⟩
  intro key other
  rw [quiet.2]
  exact mirrors.rests key other

/-- The share that a print gives to the only order of a side. -/
theorem given_single {e : SimMatchingEngine} {o : SimOrder}
    (resting : e.orders ev.symbol.asU64 side = [o]) (spend : budget ≠ 0)
    (near : reaches side ev.price.toNat o = true) :
    e.given side ev budget = [(o, min o.qty budget)] := by
  have go : ¬ (budget = 0 ∨ reaches side ev.price.toNat o = false) := by
    rw [near]
    exact not_or.mpr ⟨spend, by decide⟩
  rw [given, resting, shares, allocate, if_neg go]
  rfl

theorem leftOf_single (o : SimOrder) (share : Nat) :
    [(o, share)].filterMap leftOf =
      if share < o.qty then [{ o with qty := o.qty - share }] else [] := by
  rw [List.filterMap_cons, leftOf]
  by_cases keeps : share < o.qty
  · rw [if_neg (by simp only; omega), if_pos keeps]
    rfl
  · rw [if_pos (by simp only; omega), if_neg keeps]
    rfl

theorem struck (mirrors : Mirrored size quotes next desk)
    (strikes : Strikes quotes ev budget side q) :
    ∃ qty tsNs, Struck size desk ev budget side q qty tsNs := by
  obtain ⟨sides, quoted, near⟩ := strikes
  obtain ⟨qty, tsNs, positive, small, resting⟩ := mirrors.order quoted
  have spend : budget ≠ 0 := (printSide_eq_some.mp sides).1.2.2
  have taken : 0 < min qty budget := by omega
  obtain ⟨fills, -, orders⟩ := onMarketEvent_fills (mirrors.sound.sized ev.symbol.asU64 side) sides
  have served : desk.engine.given side ev budget =
      [(⟨q.orderId, side, q.price, qty, tsNs⟩, min qty budget)] :=
    given_single resting spend (by cases side <;> exact near)
  have reported : fillOf side ev.price.toNat ev.exchangeTsNs
      (⟨q.orderId, side, q.price, qty, tsNs⟩, min qty budget) =
        some (strikeFill ev budget side q qty) := if_pos taken
  rw [served, leftOf_single] at orders
  rw [served, List.filterMap_cons_some reported] at fills
  exact ⟨qty, tsNs, small, resting, taken, fills, orders⟩

end Mirrored

section AfterStrike

variable {size next qty : Nat} {quotes : Quotes} {desk : OrderDesk} {side : OrderSide}
  {q : StrategyQuote} {ev : BookEvent} {budget : Nat} {tsNs : UInt64}

theorem Struck.rests (struck : Struck size desk ev budget side q qty tsNs)
    (mirrors : Mirrored size quotes next desk) (key : UInt64) (other : OrderSide) :
    RestsAs size other
      (quotes.settle ev.symbol.asU64 side q (strikeFill ev budget side q qty).isPartial key other)
      ((desk.engine.onMarketEvent ev budget).1.orders key other) := by
  have small := struck.small
  have taken := struck.taken
  rw [struck.orders, Quotes.settle]
  by_cases here : key = ev.symbol.asU64 ∧ other = side
  · rw [if_pos here, here.1, here.2, Quotes.set_self]
    by_cases keeps : min qty budget < qty
    · have open_ : (strikeFill ev budget side q qty).isPartial = true := decide_eq_true keeps
      rw [if_pos keeps, if_pos open_]
      exact ⟨qty - min qty budget, tsNs, by omega, by omega, rfl⟩
    · have full : ¬ (strikeFill ev budget side q qty).isPartial = true :=
        fun open_ => keeps (of_decide_eq_true open_)
      rw [if_neg keeps, if_neg full]
      rfl
  · rw [if_neg here, Quotes.set_of_ne here]
    exact mirrors.rests key other

/-- The owner forgets no order that is still quoted. -/
theorem Mirrored.bound_settle (mirrors : Mirrored size quotes next desk)
    (quoted : quotes ev.symbol.asU64 side = some q) (key : UInt64) (other : OrderSide)
    (r : StrategyQuote) (left : quotes.settle ev.symbol.asU64 side q
      (strikeFill ev budget side q qty).isPartial key other = some r) :
    OrderDesk.settle desk.orderToSymbol (strikeFill ev budget side q qty) r.orderId = some key := by
  rcases Quotes.settle_cases left with ⟨rfl, rfl, rfl, open_⟩ | ⟨elsewhere, kept⟩
  · rw [OrderDesk.settle, if_neg (Bool.not_eq_false _ ▸ open_)]
    exact mirrors.bound _ _ r quoted
  · have differs : r.orderId ≠ (strikeFill ev budget side q qty).orderId := fun same =>
      elsewhere (mirrors.alone quoted key other r kept same)
    rw [OrderDesk.settle]
    split
    · rw [Function.update_of_ne differs]
      exact mirrors.bound key other r kept
    · exact mirrors.bound key other r kept

/-- After a strike the desk holds the quotes that are left. -/
theorem Struck.mirrors (struck : Struck size desk ev budget side q qty tsNs)
    (mirrors : Mirrored size quotes next desk)
    (quoted : quotes ev.symbol.asU64 side = some q) :
    Mirrored size
      (quotes.settle ev.symbol.asU64 side q (strikeFill ev budget side q qty).isPartial) next
      ⟨(desk.engine.onMarketEvent ev budget).1,
        OrderDesk.settle desk.orderToSymbol (strikeFill ev budget side q qty)⟩ where
  sound := mirrors.sound.print ev budget
  rests := struck.rests mirrors
  bound := mirrors.bound_settle quoted
  started := mirrors.started
  numbered := by
    intro key other r left
    rcases Quotes.settle_cases left with ⟨-, -, rfl, -⟩ | ⟨-, kept⟩
    · exact mirrors.numbered _ _ r quoted
    · exact mirrors.numbered key other r kept

end AfterStrike

/-- The quantity that rests on a side. -/
def outstanding (e : SimMatchingEngine) (symbol : UInt64) (side : OrderSide) : Nat :=
  ((e.orders symbol side).map SimOrder.qty).sum

theorem outstanding_congr {e e' : SimMatchingEngine} {symbol : UInt64} {side : OrderSide}
    (orders : e'.orders symbol side = e.orders symbol side) :
    outstanding e' symbol side = outstanding e symbol side :=
  congrArg (fun l => (l.map SimOrder.qty).sum) orders

namespace Mirrored

theorem outstanding_le (mirrors : Mirrored size quotes next desk) (symbol : UInt64)
    (side : OrderSide) : outstanding desk.engine symbol side ≤ size := by
  have rests := mirrors.rests symbol side
  cases quoted : quotes symbol side with
  | none =>
    rw [quoted] at rests
    rw [outstanding, rests]
    exact Nat.zero_le size
  | some q =>
    obtain ⟨qty, tsNs, -, small, resting⟩ := mirrors.order quoted
    rw [outstanding, resting]
    simpa using small

theorem outstanding_none (mirrors : Mirrored size quotes next desk) {symbol : UInt64}
    (free : quotes symbol side = none) : outstanding desk.engine symbol side = 0 := by
  have rests := mirrors.rests symbol side
  rw [free] at rests
  rw [outstanding, rests]
  rfl

end Mirrored

/-- A strike moves its share out of what rests on the side. -/
theorem Struck.outstanding {tsNs : UInt64} {qty : Nat}
    (struck : Struck size desk ev budget side q qty tsNs) (key : UInt64)
    (other : OrderSide) :
    FeedHandler.outstanding desk.engine key other =
      FeedHandler.outstanding (desk.engine.onMarketEvent ev budget).1 key other +
        if key = ev.symbol.asU64 ∧ other = side then min qty budget else 0 := by
  rw [FeedHandler.outstanding, FeedHandler.outstanding, struck.orders]
  by_cases here : key = ev.symbol.asU64 ∧ other = side
  · rw [if_pos here, if_pos here, here.1, here.2, struck.resting]
    by_cases keeps : min qty budget < qty
    · rw [if_pos keeps]
      simp
    · rw [if_neg keeps]
      simp only [List.map_cons, List.map_nil, List.sum_cons, List.sum_nil]
      omega
  · rw [if_neg here, if_neg here, Nat.add_zero]

end FeedHandler
