import FeedHandler.Phase3.ItchBook

/-! Runs of the ITCH feed through the engine. The book is exact as long as every message
is addressed, and a message that changes the shares of some price without being
addressed is seen in the next snapshot. -/
namespace FeedHandler

open OrderLife

namespace OrderBookEngine

variable {layout : ProbeLayout UInt64} {e : OrderBookEngine layout} {live : List LiveOrder}
  {order : LiveOrder} {ev : BookEvent}

section Blank

variable (venue : ev.venue = .nasdaq) (blank : ev.symbol = {}) {symbol : UInt64}
  (other : symbol ≠ ({} : SymbolKey).asU64)

include venue blank other

theorem setBook_blank (book : VenueBook) :
    (e.setBook ev.venue ev.symbol.asU64 book).books .nasdaq symbol = e.books .nasdaq symbol := by
  rw [venue, blank, setBook_book, if_neg (fun own => other own.2)]

/-- An execution, cancel or delete changes no book but the one of the blank symbol. -/
theorem applyReduce_books : (e.applyReduce ev).books .nasdaq symbol = e.books .nasdaq symbol := by
  simp only [applyReduce]
  cases e.orders.find? (orderKey ev.venue ev.orderId) with
  | none => rfl
  | some stored =>
    simp only
    generalize (if ev.qty = 0 ∨ ev.qty > stored.qty then stored.qty else ev.qty) = dec
    split
    · exact setBook_blank venue blank other _
    · exact setBook_blank venue blank other _

theorem applyReplace_books :
    (e.applyReplace ev).1.books .nasdaq symbol = e.books .nasdaq symbol := by
  simp only [applyReplace, putOrder_books]
  rw [setBook_blank venue blank other]
  cases e.orders.find? (orderKey ev.venue ev.referenceOrderId) with
  | none => rfl
  | some stored => exact setBook_blank venue blank other _

end Blank

/-- A replacement of an order of the blank symbol takes the old order out of its book and
adds nothing. -/
theorem applyReplace_blank (tracks : e.Tracks live) (member : order ∈ live)
    (own : order.symbol = {}) (venue : ev.venue = .nasdaq) (blank : ev.symbol = {})
    (unsided : ev.side = .unknown) (ref : ev.referenceOrderId = order.orderRef) :
    (e.applyReplace ev).1.books .nasdaq order.symbol.asU64 =
      (e.books .nasdaq order.symbol.asU64).reduce order.side order.price order.remaining := by
  obtain ⟨ahead, held⟩ := tracks.entry order member
  have found := tracks.sound.find?_iff.mpr held
  simp only [applyReplace, putOrder_books, venue, blank, unsided, ref, orderKey_nasdaq, found, own,
    setBook_book, and_self, if_true, VenueBook.add]
  rfl

end OrderBookEngine

namespace ItchFeed

open OrderBookEngine

variable {layout : ProbeLayout UInt64} {s : ItchFeed layout} {p : ItchPacket}
  {order : LiveOrder}

/-- The message changes the shares at some price. -/
def Changing (live : List LiveOrder) : OrderAction → Prop
  | .enter _ => True
  | .take _ shares => 0 < shares
  | .leave _ => True
  | .replace orderRef _ shares price => ∀ order ∈ live, order.orderRef = orderRef →
    order.price ≠ price ∨ order.remaining ≠ shares

/-- Shares taken from an order with a symbol are missed by the book. -/
theorem Tracked.take_blank (tracked : s.Tracked) {amount : UInt32} (member : order ∈ s.live)
    (enough : amount ≤ order.remaining) (positive : 0 < amount) {s' : ItchFeed layout}
    (live : s'.live = alter s.live order.orderRef (·.without amount))
    (books : ∀ symbol, symbol ≠ ({} : SymbolKey).asU64 →
      s'.engine.books .nasdaq symbol = s.engine.books .nasdaq symbol)
    (faithful : s'.BookExact) : order.symbol = {} := by
  by_contra named
  have known := tracked.formed.known order member
  have apart : order.symbol.asU64 ≠ ({} : SymbolKey).asU64 := fun same =>
    named (SymbolKey.asU64_inj.mp same)
  have after := faithful order.symbol order.side order.price known
  simp only [snapshot, books _ apart, live] at after
  have same := after.unique (tracked.bookExact order.symbol order.side order.price known)
  have taken := resting_take tracked.formed member enough order.symbol order.side order.price
  rw [if_pos ⟨rfl, rfl, rfl⟩] at taken
  have amountPos := UInt32.lt_iff_toNat_lt.mp positive
  simp only [UInt32.toNat_zero] at amountPos
  omega

theorem Tracked.take_addressed (tracked : s.Tracked) {orderRef : UInt64} {shares : UInt32}
    (valid : Valid s.live (.take orderRef shares)) (positive : 0 < shares)
    {s' : ItchFeed layout} {ev : BookEvent} (venue : ev.venue = .nasdaq) (unnamed : ev.symbol = {})
    (live : s'.live = OrderLife.step s.live (.take orderRef shares))
    (engine : s'.engine = s.engine.applyReduce ev) (faithful : s'.BookExact) :
    Addressed s.live (.take orderRef shares) := by
  obtain ⟨order, member, rfl, enough⟩ := valid
  have blank : order.symbol = {} := tracked.take_blank member enough positive live
    (fun symbol other => engine ▸ applyReduce_books venue unnamed other) faithful
  refine ⟨positive, ?_⟩
  intro other present same
  exact tracked.formed.eq_of_ref present member same ▸ blank

section Replace

variable {s' : ItchFeed layout} {ev : BookEvent} {newRef : UInt64} {shares price : UInt32}
  (tracked : s.Tracked) (member : order ∈ s.live) (venue : ev.venue = .nasdaq)
  (blank : ev.symbol = {})
  (live : s'.live = alter s.live order.orderRef
    fun order => some (order.replacedBy newRef shares price))
  (engine : s'.engine = (s.engine.applyReplace ev).1)

include tracked member venue blank live engine

/-- The replacement of an order of the blank symbol takes it out of its level, and the
level of the new price does not grow. -/
theorem replace_blank_missed (own : order.symbol = {}) (unsided : ev.side = .unknown)
    (ref : ev.referenceOrderId = order.orderRef) (positive : 0 < shares) : ¬ s'.BookExact := by
  intro faithful
  have known := tracked.formed.known order member
  have amount := UInt32.lt_iff_toNat_lt.mp positive
  have taken := resting_take tracked.formed member (UInt32.le_refl _) order.symbol
  have displays : ((s.engine.books .nasdaq order.symbol.asU64).reduce order.side order.price
      order.remaining).Displays (restingShares
        (alter s.live order.orderRef (·.without order.remaining)) order.symbol) := by
    refine (tracked.tracks.books order.symbol).reduce ?_
    intro side level
    rw [← taken side level]
    simp [eq_comm]
  have after := faithful order.symbol order.side price known
  simp only [snapshot, engine, applyReplace_blank tracked.tracks member own venue blank unsided ref,
    live] at after
  have same := ((displays order.side known).levelExact price).unique after
  have left := taken order.side price
  have total := resting_replaced tracked.formed member newRef shares price price
  simp only [true_and, if_true, UInt32.toNat_zero] at left total amount
  omega

/-- The replacement of an order with a symbol leaves the level of the old price as it is. -/
theorem replace_named_missed (named : order.symbol ≠ {})
    (changing : order.price ≠ price ∨ order.remaining ≠ shares) : ¬ s'.BookExact := by
  intro faithful
  have known := tracked.formed.known order member
  have apart : order.symbol.asU64 ≠ ({} : SymbolKey).asU64 := fun same =>
    named (SymbolKey.asU64_inj.mp same)
  have after := faithful order.symbol order.side order.price known
  simp only [snapshot, engine, applyReplace_books venue blank apart, live] at after
  have same := after.unique (tracked.bookExact order.symbol order.side order.price known)
  exact resting_replaced_ne tracked.formed member newRef changing same

end Replace

/-- In a tracked state, an exact book after a message that changes shares means that the
message was addressed. -/
theorem Tracked.addressed (tracked : s.Tracked) (admissible : s.Admissible p)
    (changing : Changing s.live p.message.action) (faithful : (s.step p).BookExact) :
    Addressed s.live p.message.action := by
  have valid := admissible.1
  have engine := step_engine s p
  obtain ⟨message, sequence, ingestTsNs⟩ := p
  cases message with
  | addOrder header add => trivial
  | addOrderMpid header add attribution => trivial
  | orderExecuted header orderRef shares matchNumber =>
    exact tracked.take_addressed valid changing rfl rfl rfl engine faithful
  | orderExecutedPrice header orderRef shares matchNumber printable price =>
    exact tracked.take_addressed valid changing rfl rfl rfl engine faithful
  | orderCancel header orderRef shares =>
    exact tracked.take_addressed valid changing rfl rfl rfl engine faithful
  | orderDelete header orderRef =>
    obtain ⟨order, member, rfl⟩ := valid
    have removed := leave_eq_take tracked.formed member
    have blank : order.symbol = {} := tracked.take_blank member (UInt32.le_refl _)
      (tracked.formed.positive order member) removed
      (fun symbol other => engine ▸ applyReduce_books rfl rfl other) faithful
    intro other present same
    exact tracked.formed.eq_of_ref present member same ▸ blank
  | orderReplace header orderRef newRef shares price =>
    obtain ⟨⟨order, member, rfl⟩, _, positive⟩ := valid
    by_cases own : order.symbol = {}
    · exact absurd faithful (replace_blank_missed tracked member rfl rfl rfl engine own rfl rfl
        positive)
    · exact absurd faithful (replace_named_missed tracked member rfl rfl rfl engine own
        (changing order member rfl))

/-- The obligation that every message of a run is addressed. -/
def AllAddressed (s : ItchFeed layout) (packets : List ItchPacket) : Prop :=
  Run.Along step (fun s p => Addressed s.live p.message.action) s packets

/-- Run lemma: the engine tracks the live orders of a run of addressed messages. -/
theorem Tracked.run (small : layout.size ≤ 2 ^ 32) {packets : List ItchPacket}
    (tracked : s.Tracked) (admissible : Run.Along ItchFeed.step Admissible s packets)
    (addressed : s.AllAddressed packets) : (packets.foldl ItchFeed.step s).Tracked :=
  (admissible.and addressed).invariant (P := Tracked)
    (fun _ _ tracked ok => tracked.step small ok.1 ok.2) tracked

/-- Run lemma: messages that change shares and keep the book exact are addressed. -/
theorem Tracked.run_addressed (small : layout.size ≤ 2 ^ 32) {packets : List ItchPacket}
    (tracked : s.Tracked) (admissible : Run.Along ItchFeed.step Admissible s packets)
    (changing : Run.Along ItchFeed.step (fun s p => Changing s.live p.message.action) s packets)
    (faithful : ∀ n, ((packets.take n).foldl ItchFeed.step s).BookExact) : s.AllAddressed packets := by
  induction packets generalizing s with
  | nil => trivial
  | cons p rest ih =>
    have first := tracked.addressed admissible.1 changing.1 (faithful 1)
    have next := tracked.step small admissible.1 first
    exact ⟨first, ih next admissible.2 changing.2 fun n => faithful (n + 1)⟩

/-- The engine as it is built. -/
def initial : ItchFeed orderLayout := create orderLayout

/-- The book is exact after every initial part of a stream of addressed messages: only
orders of the blank symbol lose shares or leave, and none is replaced. For messages that
change the shares of some price, no other stream keeps the book exact. -/
theorem book_exact_addressed (packets : List ItchPacket)
    (admissible : Run.Along step Admissible initial packets) :
    (initial.AllAddressed packets →
        ∀ n, ((packets.take n).foldl step initial).BookExact) ∧
      (Run.Along step (fun s p => Changing s.live p.message.action) initial packets →
        (∀ n, ((packets.take n).foldl step initial).BookExact) →
          initial.AllAddressed packets) := by
  have small : orderLayout.size ≤ 2 ^ 32 := by decide
  constructor
  · intro addressed n
    have parts := List.take_append_drop n packets
    rw [← parts, Run.along_append] at admissible
    rw [AllAddressed, ← parts, Run.along_append] at addressed
    exact (create_tracked.run small admissible.1 addressed.1).bookExact
  · exact create_tracked.run_addressed small admissible

def stockAapl : SymbolKey := ⟨⟨#[65, 65, 80, 76, 32, 32, 32, 32], rfl⟩⟩

def addBuy (orderRef : UInt64) (stock : SymbolKey) : ItchPacket where
  message := .addOrder {} ⟨orderRef, 'B'.toUInt8, 100, stock, 1500000⟩

def executeOrder (orderRef : UInt64) (shares : UInt32) : ItchPacket where
  message := .orderExecuted {} orderRef shares 1

def deleteOrder (orderRef : UInt64) : ItchPacket where
  message := .orderDelete {} orderRef

/-- Two orders, of which the one of the blank symbol trades and is deleted. -/
def blankStream : List ItchPacket :=
  [addBuy 1 stockAapl, addBuy 2 {}, executeOrder 2 30, deleteOrder 2]

theorem book_exact_addressed_blank :
    Run.Along step Admissible initial blankStream ∧
      ∀ n, ((blankStream.take n).foldl step initial).BookExact := by
  have admissible : Run.Along step Admissible initial blankStream := by
    simp only [blankStream, Run.along_cons, Run.along_nil, admissible_iff]
    decide +kernel
  refine ⟨admissible, (book_exact_addressed _ admissible).1 ?_⟩
  simp only [AllAddressed, blankStream, Run.along_cons, Run.along_nil]
  decide +kernel

/-- A deleted order of a real stock stays in the book. -/
theorem deleted_order_stays : ¬ ∀ packets : List ItchPacket,
    Run.Along step Admissible initial packets →
      ∀ n, ((packets.take n).foldl step initial).BookExact := by
  intro claimed
  have admissible : Run.Along step Admissible initial [addBuy 1 stockAapl, deleteOrder 1] := by
    simp only [Run.along_cons, Run.along_nil, admissible_iff]
    decide +kernel
  have final := claimed _ admissible 2 stockAapl .buy 1500000 (by decide)
  have listed : (1500000, 100) ∈ ((([addBuy 1 stockAapl, deleteOrder 1].take 2).foldl step
      initial).engine.snapshot .nasdaq stockAapl.asU64).levels .buy := by
    decide +kernel
  have quantity := final.1 100 listed
  revert quantity
  decide +kernel

end ItchFeed
end FeedHandler
