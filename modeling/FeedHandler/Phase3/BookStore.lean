import FeedHandler.Phase3.LevelOrder

/-! How the reference book stores its books: each venue has a map from symbols to nodes
that never move, and remembers the last node it handed out. An event works on one book,
through the node it got. The memory never goes stale, so the engine with stores is the
engine whose books are a function of venue and symbol. -/
namespace FeedHandler

/-- The books of one venue: the nodes in the order they were made, the map from symbols
to nodes, and the entry of the cache. -/
structure BookStore where
  nodes : List VenueBook := []
  nodeOf : UInt64 → Option Nat := fun _ => none
  cachedSymbol : UInt64 := 0
  cachedBook : Option Nat := none
  cachedValid : Bool := false

namespace BookStore

variable {s : BookStore} {symbol other : UInt64} {node : Nat} {book : VenueBook}

/-- The map's own access, which makes an empty book for a symbol it does not have. -/
def access (s : BookStore) (symbol : UInt64) : BookStore × Nat :=
  match s.nodeOf symbol with
  | some node => (s, node)
  | none =>
    ({ s with
        nodes := s.nodes ++ [{}]
        nodeOf := Function.update s.nodeOf symbol (some s.nodes.length) }, s.nodes.length)

/-- Access through the map, remembered in the cache. -/
def refill (s : BookStore) (symbol : UInt64) : BookStore × Nat :=
  let found := s.access symbol
  ({ found.1 with cachedSymbol := symbol, cachedBook := some found.2, cachedValid := true },
    found.2)

def bookFor (s : BookStore) (symbol : UInt64) : BookStore × Nat :=
  match s.cachedBook with
  | some node =>
    if s.cachedValid = true ∧ s.cachedSymbol = symbol then (s, node) else s.refill symbol
  | none => s.refill symbol

def findBook (s : BookStore) (symbol : UInt64) : Option VenueBook :=
  (s.nodeOf symbol).bind fun node => s.nodes[node]?

def read (s : BookStore) (node : Nat) : VenueBook := s.nodes[node]?.getD {}

def write (s : BookStore) (node : Nat) (book : VenueBook) : BookStore :=
  { s with nodes := s.nodes.set node book }

/-- Queries answer for a missing book as for an empty one. -/
def view (s : BookStore) (symbol : UInt64) : VenueBook := (s.findBook symbol).getD {}

/-- Symbols have nodes of their own, and a valid cache entry is what the map says. -/
structure Sound (s : BookStore) : Prop where
  inside : ∀ symbol node, s.nodeOf symbol = some node → node < s.nodes.length
  distinct : ∀ symbol other node, s.nodeOf symbol = some node → s.nodeOf other = some node →
    symbol = other
  cached : s.cachedValid = true → ∀ node, s.cachedBook = some node →
    s.nodeOf s.cachedSymbol = some node

theorem empty_sound : ({} : BookStore).Sound where
  inside := fun _ _ found => by cases found
  distinct := fun _ _ _ found => by cases found
  cached := fun valid => absurd valid Bool.false_ne_true

/-- A store whose map has `node` for `symbol` and shows the books that `s` shows. -/
structure Hands (s : BookStore) (symbol : UInt64) (found : BookStore × Nat) : Prop where
  sound : found.1.Sound
  node : found.1.nodeOf symbol = some found.2
  view : ∀ other, found.1.view other = s.view other

theorem Sound.access (sound : s.Sound) (symbol : UInt64) : s.Hands symbol (s.access symbol) := by
  simp only [BookStore.access]
  cases present : s.nodeOf symbol with
  | some node => exact ⟨sound, present, fun _ => rfl⟩
  | none =>
    have bound : ∀ other node, s.nodeOf other = some node → node ≠ s.nodes.length :=
      fun other node found => Nat.ne_of_lt (sound.inside other node found)
    refine ⟨⟨?_, ?_, ?_⟩, Function.update_self .., ?_⟩
    · intro other node found
      simp only [Function.update_apply] at found
      rw [List.length_append, List.length_singleton]
      split at found
      · cases found
        exact Nat.lt_succ_self _
      · exact Nat.lt_succ_of_lt (sound.inside other node found)
    · intro first second node here there
      simp only [Function.update_apply] at here there
      split at here
      · next own =>
        split at there
        · next same => rw [own, same]
        · cases here
          exact absurd rfl (bound second _ there)
      · split at there
        · cases there
          exact absurd rfl (bound first _ here)
        · exact sound.distinct first second node here there
    · intro valid node cached
      have known := sound.cached valid node cached
      have old : s.cachedSymbol ≠ symbol := by
        rintro rfl
        rw [present] at known
        cases known
      exact (Function.update_of_ne old _ _).trans known
    · intro other
      simp only [view, findBook, Function.update_apply]
      split
      · next own => simp [own, present]
      · cases found : s.nodeOf other with
        | none => rfl
        | some node =>
          have kept : (s.nodes ++ [({} : VenueBook)])[node]? = s.nodes[node]? :=
            List.getElem?_append_left (sound.inside other node found)
          simp only [Option.bind_some, kept]

theorem Sound.refill (sound : s.Sound) (symbol : UInt64) : s.Hands symbol (s.refill symbol) := by
  obtain ⟨⟨inside, distinct, _⟩, node, view⟩ := sound.access symbol
  refine ⟨⟨inside, distinct, ?_⟩, node, view⟩
  intro _ found cached
  cases cached
  exact node

/-- The cache hands out the node that the map would. -/
theorem Sound.bookFor (sound : s.Sound) (symbol : UInt64) : s.Hands symbol (s.bookFor symbol) := by
  simp only [BookStore.bookFor]
  cases cached : s.cachedBook with
  | none => exact sound.refill symbol
  | some node =>
    simp only
    split
    · next hit =>
      obtain ⟨valid, rfl⟩ := hit
      exact ⟨sound, sound.cached valid node cached, fun _ => rfl⟩
    · exact sound.refill symbol

theorem read_eq (mapped : s.nodeOf symbol = some node) : s.read node = s.view symbol := by
  simp only [read, view, findBook, mapped, Option.bind_some]

theorem Sound.write (sound : s.Sound) (mapped : s.nodeOf symbol = some node) :
    (s.write node book).Sound ∧
      ∀ other, (s.write node book).view other = if other = symbol then book else s.view other := by
  have bound := sound.inside symbol node mapped
  refine ⟨⟨?_, sound.distinct, sound.cached⟩, ?_⟩
  · intro other found here
    simp only [BookStore.write, List.length_set]
    exact sound.inside other found here
  · intro other
    simp only [view, findBook, BookStore.write]
    split
    · next same => simp [same, mapped, bound]
    · next differs =>
      cases found : s.nodeOf other with
      | none => rfl
      | some place =>
        have apart : node ≠ place := by
          rintro rfl
          exact differs (sound.distinct other symbol node found mapped)
        simp only [Option.bind_some, List.getElem?_set_ne apart]

end BookStore

/-- The engine with its stores. -/
structure StoredEngine (layout : ProbeLayout UInt64) where
  stores : Venue → BookStore := fun _ => {}
  orders : ProbeTable layout OrderRef

namespace OrderBookEngine

variable {layout : ProbeLayout UInt64} {e d : OrderBookEngine layout} {ev : BookEvent}

/-- An event reads and writes its own book and the order table, and nothing else. -/
theorem onEvent_local (orders : d.orders = e.orders)
    (own : d.books ev.venue ev.symbol.asU64 = e.books ev.venue ev.symbol.asU64) :
    (d.onEvent ev).1.orders = (e.onEvent ev).1.orders ∧ (d.onEvent ev).2 = (e.onEvent ev).2 ∧
      (d.onEvent ev).1.books ev.venue ev.symbol.asU64 =
        (e.onEvent ev).1.books ev.venue ev.symbol.asU64 := by
  have book : (d.step ev).books ev.venue ev.symbol.asU64 =
      (e.step ev).books ev.venue ev.symbol.asU64 := by
    simp only [step_bookAfter, setBook_book, orders, own]
  have put : ∀ (first second : OrderBookEngine layout) ahead, first.orders = second.orders →
      (first.putOrder ev ahead).1.orders = (second.putOrder ev ahead).1.orders ∧
        (first.putOrder ev ahead).2 = (second.putOrder ev ahead).2 := by
    intro first second ahead same
    simp only [putOrder, same]
    split
    · exact ⟨same, rfl⟩
    · exact ⟨rfl, rfl⟩
  have applied : (d.apply ev).1.orders = (e.apply ev).1.orders ∧
      (d.apply ev).2 = (e.apply ev).2 := by
    simp only [apply]
    cases ev.type
    case add | addMpid =>
      obtain ⟨table, flag⟩ := put (d.setBook ev.venue ev.symbol.asU64
        ((d.books ev.venue ev.symbol.asU64).add ev.side ev.price ev.qty))
        (e.setBook ev.venue ev.symbol.asU64
        ((e.books ev.venue ev.symbol.asU64).add ev.side ev.price ev.qty))
        (BookSpec.queueAhead (e.books ev.venue ev.symbol.asU64) ev) orders
      simp only [applyAdd, own] at table flag ⊢
      exact ⟨table, Prod.ext flag rfl⟩
    case execute | executePrice | cancel | delete =>
      cases found : e.orders.find? (orderKey ev.venue ev.orderId) with
      | none => simp only [applyReduce, orders, found, and_self]
      | some order =>
        rw [applyReduce_some found, applyReduce_some (by rw [orders, found])]
        simp only [orders, and_self]
    case replace =>
      rw [applyReplace_eq, applyReplace_eq]
      obtain ⟨table, flag⟩ := put ((d.withoutReferenced ev).setBook ev.venue ev.symbol.asU64
        (((d.withoutReferenced ev).books ev.venue ev.symbol.asU64).add ev.side ev.price ev.qty))
        ((e.withoutReferenced ev).setBook ev.venue ev.symbol.asU64
        (((e.withoutReferenced ev).books ev.venue ev.symbol.asU64).add ev.side ev.price ev.qty))
        0 (by
          simp only [setBook, withoutReferenced, orders]
          split <;> simp only [orders])
      exact ⟨table, Prod.ext flag rfl⟩
    all_goals exact ⟨orders, rfl⟩
  refine ⟨applied.1, ?_, book⟩
  simp only [step, onEvent] at book
  simp only [onEvent, own, book, applied.2]

end OrderBookEngine

namespace StoredEngine

variable {layout : ProbeLayout UInt64} {s : StoredEngine layout} {e : OrderBookEngine layout}

def create (layout : ProbeLayout UInt64) : StoredEngine layout where
  orders := .create layout OrderRef

/-- An event gets the node of its book and works on that book alone. -/
def onEvent (s : StoredEngine layout) (ev : BookEvent) : StoredEngine layout × ApplyResult :=
  let found := (s.stores ev.venue).bookFor ev.symbol.asU64
  let applied := OrderBookEngine.onEvent ⟨fun _ _ => found.1.read found.2, s.orders⟩ ev
  ({ stores := Function.update s.stores ev.venue
        (found.1.write found.2 (applied.1.books ev.venue ev.symbol.asU64))
     orders := applied.1.orders }, applied.2)

def step (s : StoredEngine layout) (ev : BookEvent) : StoredEngine layout := (s.onEvent ev).1

def snapshot (s : StoredEngine layout) (venue : Venue) (symbol : UInt64) : VenueBook :=
  (s.stores venue).view symbol

def topOfBook (s : StoredEngine layout) (venue : Venue) (symbol : UInt64) : TopOfBook :=
  match (s.stores venue).findBook symbol with
  | none => {}
  | some book => book.top

/-- The stores show the books of the engine. -/
structure Shows (s : StoredEngine layout) (e : OrderBookEngine layout) : Prop where
  sound : ∀ venue, (s.stores venue).Sound
  books : ∀ venue symbol, s.snapshot venue symbol = e.books venue symbol
  orders : s.orders = e.orders

theorem create_shows : (create layout).Shows (.create layout) where
  sound := fun _ => BookStore.empty_sound
  books := fun _ _ => rfl
  orders := rfl

/-- One event does the same to both and gets the same answer. -/
theorem Shows.onEvent (shows : s.Shows e) (ev : BookEvent) :
    (s.step ev).Shows (e.step ev) ∧ (s.onEvent ev).2 = (e.onEvent ev).2 := by
  obtain ⟨sound, node, view⟩ := (shows.sound ev.venue).bookFor ev.symbol.asU64
  let found := (s.stores ev.venue).bookFor ev.symbol.asU64
  have own : found.1.read found.2 = e.books ev.venue ev.symbol.asU64 :=
    (BookStore.read_eq node).trans ((view _).trans (shows.books _ _))
  let alone : OrderBookEngine layout := ⟨fun _ _ => found.1.read found.2, s.orders⟩
  let after := (alone.onEvent ev).1.books ev.venue ev.symbol.asU64
  obtain ⟨orders, result, book⟩ := OrderBookEngine.onEvent_local (d := alone) shows.orders own
  obtain ⟨kept, written⟩ : (found.1.write found.2 after).Sound ∧
      ∀ other, (found.1.write found.2 after).view other =
        if other = ev.symbol.asU64 then after else found.1.view other := sound.write node
  refine ⟨⟨?_, ?_, orders⟩, result⟩
  · intro venue
    simp only [step, StoredEngine.onEvent, Function.update_apply]
    split
    · exact kept
    · exact shows.sound venue
  · intro venue symbol
    rw [OrderBookEngine.step_bookAfter, OrderBookEngine.setBook_book]
    simp only [snapshot, step, StoredEngine.onEvent, Function.update_apply]
    by_cases here : venue = ev.venue
    · rw [if_pos here, written symbol]
      by_cases same : symbol = ev.symbol.asU64
      · have stepped := congrFun (congrFun (OrderBookEngine.step_bookAfter e ev) ev.venue)
          ev.symbol.asU64
        rw [OrderBookEngine.setBook_book, if_pos ⟨rfl, rfl⟩] at stepped
        rw [if_pos same, if_pos ⟨here, same⟩, ← stepped]
        exact book
      · rw [if_neg same, if_neg (fun both => same both.2), view, here]
        exact shows.books _ _
    · rw [if_neg here, if_neg (fun both => here both.1)]
      exact shows.books venue symbol

theorem run_shows (layout : ProbeLayout UInt64) (events : List BookEvent) :
    (events.foldl step (create layout)).Shows
      (events.foldl OrderBookEngine.step (.create layout)) :=
  (Run.along_of_forall (Q := fun _ => True) (create layout) events (fun _ _ => trivial)).simulation
    (fun _ _ ev shows _ => (shows.onEvent ev).1) create_shows

theorem topOfBook_eq (s : StoredEngine layout) (venue : Venue) (symbol : UInt64) :
    s.topOfBook venue symbol = (s.snapshot venue symbol).top := by
  simp only [topOfBook, snapshot, BookStore.view]
  cases (s.stores venue).findBook symbol <;> rfl

/-- After any stream of events the levels of every book are strictly ordered, a search finds
a level exactly when it is there, and the top of the book is its best bid and ask. -/
theorem levels_stay_ordered (layout : ProbeLayout UInt64) (events : List BookEvent)
    (venue : Venue) (symbol : UInt64) :
    let s := events.foldl step (create layout)
    let book := s.snapshot venue symbol
    let top := s.topOfBook venue symbol
    book.bids.Pairwise (fun first second => second.1 < first.1) ∧
      book.asks.Pairwise (fun first second => first.1 < second.1) ∧
      (∀ price quantity, FlatMap.find? (priceBefore true) book.bids price = some quantity ↔
        (price, quantity) ∈ book.bids) ∧
      (∀ price quantity, FlatMap.find? (priceBefore false) book.asks price = some quantity ↔
        (price, quantity) ∈ book.asks) ∧
      (top.hasBid = true ↔ book.bids ≠ []) ∧ (top.hasAsk = true ↔ book.asks ≠ []) ∧
      (book.bids ≠ [] → (∃ quantity, (top.bidPrice, quantity) ∈ book.bids) ∧
        ∀ level ∈ book.bids, level.1 ≤ top.bidPrice) ∧
      (book.asks ≠ [] → (∃ quantity, (top.askPrice, quantity) ∈ book.asks) ∧
        ∀ level ∈ book.asks, top.askPrice ≤ level.1) := by
  intro s book top
  have ordered : book.Ordered := by
    have same : book = _ := (run_shows layout events).books venue symbol
    rw [same]
    exact OrderBookEngine.run_ordered layout events venue symbol
  have best : top = book.top := topOfBook_eq s venue symbol
  rw [best]
  exact ⟨ordered.bids_fall, ordered.asks_rise,
    fun _ _ => ordered.bids.find?_iff (priceBefore_strict true),
    fun _ _ => ordered.asks.find?_iff (priceBefore_strict false),
    VenueBook.top_hasBid, VenueBook.top_hasAsk, ordered.top_bid, ordered.top_ask⟩

end StoredEngine
end FeedHandler
