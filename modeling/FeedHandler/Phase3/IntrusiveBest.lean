import FeedHandler.Phase3.IntrusiveRuns
import FeedHandler.Phase3.PriceLevels

/-! The cached best price of the intrusive book. A new level is compared with the cache, and
only when the best level goes is the side scanned again; the scan passes over levels
without quantity, of which there are none as long as every order has some. -/
namespace FeedHandler
namespace IntrusiveOrderBook

namespace SideBook

variable {side : SideBook} {prices others : List UInt32} {price : UInt32} {level : Level}

/-- The cache shows the best of the given prices. -/
structure Best (side : SideBook) (prices : List UInt32) : Prop where
  some_iff : side.hasBest = true ↔ prices ≠ []
  mem : side.hasBest = true → side.bestPrice ∈ prices
  first : side.hasBest = true →
    ∀ price ∈ prices, priceBefore side.descending price side.bestPrice = false

theorem Best.nil (unset : side.hasBest = false) : side.Best [] where
  some_iff := by simp [unset]
  mem := fun set => absurd (unset.symm.trans set) Bool.false_ne_true
  first := fun set => absurd (unset.symm.trans set) Bool.false_ne_true

theorem Best.congr (best : side.Best prices) (same : ∀ price, price ∈ prices ↔ price ∈ others) :
    side.Best others where
  some_iff := by
    rw [best.some_iff]
    refine not_congr ?_
    simp only [List.eq_nil_iff_forall_not_mem, same]
  mem := fun cached => (same _).mp (best.mem cached)
  first := fun cached price member => best.first cached price ((same price).mpr member)

/-- The levels themselves play no part in the cache. -/
theorem Best.withLevels (best : side.Best prices) (levels : AList fun _ : UInt32 => Level) :
    ({ side with levels := levels } : SideBook).Best prices :=
  ⟨best.some_iff, best.mem, best.first⟩

theorem Best.add (best : side.Best prices) (price : UInt32) :
    (side.updateBestOnAdd price).Best (price :: prices) := by
  have strict := priceBefore_strict side.descending
  simp only [updateBestOnAdd]
  cases cached : side.hasBest with
  | false =>
    have empty : prices = [] := by
      by_contra some
      rw [best.some_iff.mpr some] at cached
      cases cached
    simp only [empty, Bool.not_false, if_true]
    exact ⟨by simp, by simp, by simp [strict.irrefl]⟩
  | true =>
    simp only [Bool.not_true, Bool.false_eq_true, if_false]
    split
    · next better =>
      refine ⟨by simp, by simp, ?_⟩
      intro _ other member
      rcases List.mem_cons.mp member with rfl | old
      · exact strict.irrefl _
      · by_contra before
        have worse := best.first cached other old
        rw [strict.trans _ _ _ (Bool.not_eq_false _ ▸ before) better] at worse
        cases worse
    · next worse =>
      refine ⟨by simp [cached], fun _ => List.mem_cons_of_mem _ (best.mem cached), ?_⟩
      intro _ other member
      rcases List.mem_cons.mp member with rfl | old
      · exact Bool.eq_false_iff.mpr worse
      · exact best.first cached other old

/-- A scan over levels with quantity, in whatever order they come. -/
theorem Best.scan (entries : List (Sigma fun _ : UInt32 => Level))
    (full : ∀ entry ∈ entries, entry.2.qty ≠ 0) (best : side.Best prices) :
    (entries.foldl (fun side entry => if entry.2.qty = 0 then side
      else side.updateBestOnAdd entry.1) side).Best ((entries.map Sigma.fst).reverse ++ prices) := by
  induction entries generalizing side prices with
  | nil => exact best
  | cons entry rest ih =>
    have step := ih (fun other member => full other (by simp [member])) (best.add entry.1)
    simpa [if_neg (full entry (by simp))] using step

theorem recomputeBest_best (full : ∀ entry ∈ side.levels.entries, entry.2.qty ≠ 0) :
    side.recomputeBest.Best side.levels.keys := by
  have none : ({ side with hasBest := false, bestPrice := 0 } : SideBook).Best [] :=
    ⟨by simp, by simp, by simp⟩
  refine (none.scan side.levels.entries full).congr fun price => ?_
  simp [AList.keys, List.keys]

theorem mem_keys {levels : AList fun _ : UInt32 => Level} :
    price ∈ levels.keys ↔ ∃ level, levels.lookup price = some level := by
  rw [← AList.mem_keys, ← AList.lookup_isSome, Option.isSome_iff_exists]

theorem findOrAddLevel_descending :
    (side.findOrAddLevel price).1.descending = side.descending := by
  simp only [findOrAddLevel]
  cases side.levels.lookup price with
  | some level => rfl
  | none => exact updateBestOnAdd_descending

theorem removeLevelIfEmpty_descending :
    (side.removeLevelIfEmpty price).descending = side.descending := by
  simp only [removeLevelIfEmpty]
  cases side.levels.lookup price with
  | none => rfl
  | some level =>
    simp only
    split
    · rfl
    · split
      · exact recomputeBest_frame.2
      · rfl

theorem Best.findOrAddLevel (best : side.Best side.levels.keys) (price : UInt32) :
    (side.findOrAddLevel price).1.Best (side.findOrAddLevel price).1.levels.keys ∧
      price ∈ (side.findOrAddLevel price).1.levels.keys := by
  simp only [SideBook.findOrAddLevel]
  cases found : side.levels.lookup price with
  | some level => exact ⟨best, mem_keys.mpr ⟨level, found⟩⟩
  | none =>
    simp only [updateBestOnAdd_levels]
    refine ⟨((best.withLevels _).add price).congr ?_, by simp⟩
    intro other
    by_cases same : other = price <;> simp [same, ← AList.mem_keys]

/-- A level is written back under a price that is there. -/
theorem Best.setLevel (best : side.Best side.levels.keys) (present : price ∈ side.levels.keys) :
    (side.setLevel price level).Best (side.setLevel price level).levels.keys := by
  refine (best.withLevels _).congr ?_
  intro other
  rw [← AList.mem_keys] at present
  simp only [SideBook.setLevel, ← AList.mem_keys, AList.mem_insert]
  refine ⟨Or.inr, ?_⟩
  rintro (rfl | kept)
  · exact present
  · exact kept

theorem Best.removeLevelIfEmpty (best : side.Best side.levels.keys)
    (full : ∀ other level, other ≠ price → side.levels.lookup other = some level → level.qty ≠ 0) :
    (side.removeLevelIfEmpty price).Best (side.removeLevelIfEmpty price).levels.keys := by
  simp only [SideBook.removeLevelIfEmpty]
  cases found : side.levels.lookup price with
  | none => exact best
  | some level =>
    simp only
    split
    · exact best
    · split
      · rw [recomputeBest_frame.1]
        refine recomputeBest_best fun entry member => ?_
        have listed : (side.levels.erase price).lookup entry.1 = some entry.2 :=
          AList.mem_lookup_iff.mpr member
        have other : entry.1 ≠ price := by
          intro same
          rw [same, AList.lookup_erase] at listed
          cases listed
        rw [AList.lookup_erase_ne other] at listed
        exact full entry.1 entry.2 other listed
      · next elsewhere =>
        have kept : ∀ other, other ∈ (side.levels.erase price).keys ↔
            other ≠ price ∧ other ∈ side.levels.keys := by
          intro other
          simp only [← AList.mem_keys, AList.mem_erase]
        have mem : side.hasBest = true → side.bestPrice ∈ (side.levels.erase price).keys :=
          fun cached => (kept _).mpr ⟨fun same => elsewhere ⟨cached, same⟩, best.mem cached⟩
        refine ⟨⟨fun cached => List.ne_nil_of_mem (mem cached), fun some => ?_⟩, mem, ?_⟩
        · obtain ⟨other, member⟩ := List.exists_mem_of_ne_nil _ some
          exact best.some_iff.mpr (List.ne_nil_of_mem ((kept other).mp member).2)
        · intro cached other member
          exact best.first cached other ((kept other).mp member).2

theorem sortedLevels_sorted (side : SideBook) (descending : Bool) :
    FlatMap.Sorted (priceBefore descending) (side.sortedLevels descending) := by
  refine FlatMap.sorted_mergeSort (priceBefore_strict descending) ?_
  rw [List.map_map]
  exact side.levels.nodupKeys

theorem mem_sortedLevels {descending : Bool} {qty : UInt64} :
    (price, qty) ∈ side.sortedLevels descending ↔
      ∃ level, side.levels.lookup price = some level ∧ level.qty = qty := by
  rw [sortedLevels, (List.mergeSort_perm _ _).mem_iff, List.mem_map]
  constructor
  · rintro ⟨entry, member, same⟩
    cases same
    exact ⟨entry.2, AList.mem_lookup_iff.mpr member, rfl⟩
  · rintro ⟨level, found, rfl⟩
    exact ⟨⟨price, level⟩, AList.mem_lookup_iff.mp found, rfl⟩

/-- The sorted levels begin with the cached price, and are none if nothing is cached. -/
theorem Best.sortedLevels_eq (best : side.Best side.levels.keys) :
    (side.hasBest = false ∧ side.sortedLevels side.descending = []) ∨
    (side.hasBest = true ∧ ∃ level rest, side.levels.lookup side.bestPrice = some level ∧
      side.sortedLevels side.descending = (side.bestPrice, level.qty) :: rest) := by
  cases cached : side.hasBest with
  | false =>
    refine Or.inl ⟨rfl, List.eq_nil_iff_forall_not_mem.mpr ?_⟩
    rintro ⟨price, qty⟩ listed
    obtain ⟨level, found, _⟩ := mem_sortedLevels.mp listed
    rw [best.some_iff.mpr (List.ne_nil_of_mem (mem_keys.mpr ⟨level, found⟩))] at cached
    cases cached
  | true =>
    obtain ⟨level, found⟩ := mem_keys.mp (best.mem cached)
    have listed : (side.bestPrice, level.qty) ∈ side.sortedLevels side.descending :=
      mem_sortedLevels.mpr ⟨level, found, rfl⟩
    have sorted := side.sortedLevels_sorted side.descending
    refine Or.inr ⟨rfl, level, ?_⟩
    cases shape : side.sortedLevels side.descending with
    | nil => exact absurd listed (shape ▸ List.not_mem_nil)
    | cons first rest =>
      refine ⟨rest, found, ?_⟩
      rw [shape] at listed sorted
      rcases List.mem_cons.mp listed with same | later
      · rw [same]
      · obtain ⟨price, qty⟩ := first
        have before := (List.pairwise_cons.mp sorted).1 _ later
        obtain ⟨other, present, _⟩ := mem_sortedLevels.mp (shape ▸ List.mem_cons_self)
        rw [best.first cached price (mem_keys.mpr ⟨other, present⟩)] at before
        cases before

end SideBook

variable {capacity : Nat} {b b' : IntrusiveOrderBook capacity} {size : Nat}
  {reserve free : List UInt32} {queue : Place → List UInt32} {ev : BookEvent} {i : UInt32}

/-- Every order has some quantity, and every side's cache is that of its levels. -/
structure Cached (b : IntrusiveOrderBook capacity) : Prop where
  positive : ∀ i, (b.nodes i).live = true → (b.nodes i).qty ≠ 0
  best : ∀ p, p.side ≠ .unknown → (b.sideAt p).Best (b.sideAt p).levels.keys
  descending : ∀ p, p.side ≠ .unknown → (b.sideAt p).descending = p.side.descending

theorem create_cached : (create capacity).Cached where
  positive := fun _ live => absurd live Bool.false_ne_true
  best := by
    intro p known
    obtain ⟨venue, symbol, side, price⟩ := p
    cases side with
    | buy | sell => exact .nil rfl
    | unknown => exact absurd rfl known
  descending := by
    intro p known
    obtain ⟨venue, symbol, side, price⟩ := p
    cases side with
    | buy | sell => rfl
    | unknown => exact absurd rfl known

/-- One side of one book changes. -/
theorem Cached.setSideAt (cached : b.Cached) (place : Place) {content : SideBook}
    (known : place.side ≠ .unknown) (books : b'.books = (b.setSideAt place content).books)
    (positive : ∀ i, (b'.nodes i).live = true → (b'.nodes i).qty ≠ 0)
    (best : content.Best content.levels.keys)
    (descending : content.descending = place.side.descending) : b'.Cached := by
  have sides : ∀ p, p.side ≠ .unknown → b'.sideAt p = content ∧ p.side = place.side ∨
      b'.sideAt p = b.sideAt p := by
    intro p pKnown
    simp only [sideAt, books, IntrusiveOrderBook.setSideAt, setSideBook, update_book]
    by_cases here : p.venue = place.venue ∧ p.symbol = place.symbol
    · rw [if_pos here, here.1, here.2, sideBook_setSide known pKnown]
      by_cases side : p.side = place.side
      · exact Or.inl ⟨if_pos side, side⟩
      · exact Or.inr (if_neg side)
    · rw [if_neg here]
      exact Or.inr rfl
  refine ⟨positive, ?_, ?_⟩
  · intro p pKnown
    rcases sides p pKnown with ⟨changed, _⟩ | kept
    · rw [changed]
      exact best
    · rw [kept]
      exact cached.best p pKnown
  · intro p pKnown
    rcases sides p pKnown with ⟨changed, same⟩ | kept
    · rw [changed, same]
      exact descending
    · rw [kept]
      exact cached.descending p pKnown

/-- A level shows what its orders have, so it never shows nothing. -/
theorem Cached.level_ne_zero (cached : b.Cached) (rep : Represents b size reserve free queue)
    {p : Place} (known : p.side ≠ .unknown) {level : Level} (found : b.levelAt p = some level) :
    level.qty ≠ 0 := by
  have nonempty : queue p ≠ [] := by
    intro empty
    rw [(rep.levels.level_iff p known).mpr empty] at found
    cases found
  obtain ⟨j, member⟩ := List.exists_mem_of_ne_nil _ nonempty
  obtain ⟨live, rfl⟩ := (rep.levels.mem_queue p j).mp member
  have part := rep.qty_le_level live
  have own : b.levelOr (b.nodes j).place = level := by simp only [levelOr, found, Option.getD_some]
  intro zero
  rw [own, zero, UInt64.toNat_zero, Nat.le_zero] at part
  exact cached.positive j live (UInt32.toNat_inj.mp part)

/-- A level that shows nothing without one of its orders has no other order. -/
theorem Cached.unlinked_head (cached : b.Cached) (rep : Represents b size reserve free queue)
    (proper : size ≤ kNull.toNat) (live : (b.nodes i).live = true) {dec : UInt32}
    (enough : dec ≤ (b.nodes i).qty) (used : (b.nodes i).qty - dec = 0)
    (zero : (b.unlinked i dec).2.qty = 0) : (b.unlinked i dec).2.head = kNull := by
  obtain ⟨xs, ys, split⟩ := List.append_of_mem ((rep.levels.mem_queue _ i).mpr ⟨live, rfl⟩)
  have nodup := rep.levels.nodup (b.nodes i).place
  rw [split] at nodup
  have absent := (List.nodup_cons.mp (List.nodup_middle.mp nodup)).1
  have queueOk := rep.unlinked_queueOk live proper enough used split
  have total := queueOk.qty
  rw [zero, UInt64.toNat_zero] at total
  have empty : xs ++ ys = [] := by
    refine List.eq_nil_iff_forall_not_mem.mpr fun j member => ?_
    have other : j ≠ i := fun same => absent (same ▸ member)
    have alive := (rep.levels.mem_queue _ j).mp
      (split ▸ List.perm_middle.mem_iff.mpr (List.mem_cons_of_mem _ member))
    have nothing := List.sum_eq_zero_iff.mp total.symm _ (List.mem_map_of_mem member)
    rw [Function.update_of_ne other, unlinked_node j other] at nothing
    exact cached.positive j alive.1 (UInt32.toNat_inj.mp nothing)
  rw [queueOk.head, empty, LinkedQueue.front_nil]

theorem Cached.enter (cached : b.Cached) (rep : Represents b size reserve (i :: free) queue)
    (proper : size ≤ kNull.toNat) (known : ev.side ≠ .unknown) (positive : ev.qty ≠ 0)
    (added : Added b ev i b') : b'.Cached := by
  obtain ⟨found, present⟩ := (cached.best (eventPlace ev) known).findOrAddLevel ev.price
  refine cached.setSideAt _ known added.books ?_ (found.setLevel present)
    (SideBook.findOrAddLevel_descending.trans (cached.descending _ known))
  intro j live
  rcases eq_or_ne j i with rfl | other
  · rw [added.node_eq (rep.tail_ne_free proper known), if_pos rfl]
    exact positive
  · rw [added.node_eq (rep.tail_ne_free proper known), if_neg other] at live ⊢
    exact cached.positive j live

/-- The place of a live node has a level. -/
theorem Represents.place_mem (rep : Represents b size reserve free queue)
    (live : (b.nodes i).live = true) :
    (b.nodes i).price ∈ (b.sideAt (b.nodes i).place).levels.keys := by
  refine SideBook.mem_keys.mpr (Option.ne_none_iff_exists'.mp fun missing => ?_)
  have empty := (rep.levels.level_iff (b.nodes i).place (rep.levels.known i live)).mp missing
  exact List.ne_nil_of_mem ((rep.levels.mem_queue _ i).mpr ⟨live, rfl⟩) empty

theorem Cached.shrink (cached : b.Cached) (rep : Represents b size reserve free queue)
    (live : (b.nodes i).live = true) {dec : UInt32} (stays : (b.nodes i).qty - dec ≠ 0)
    (shrunk : Shrunk b i dec b') : b'.Cached := by
  have known := rep.levels.known i live
  refine cached.setSideAt (b.nodes i).place known shrunk.books ?_
    ((cached.best _ known).setLevel (rep.place_mem live)) (cached.descending _ known)
  intro j alive
  rcases eq_or_ne j i with rfl | other
  · rw [shrunk.nodes, Function.update_self]
    exact stays
  · rw [shrunk.nodes, Function.update_of_ne other] at alive ⊢
    exact cached.positive j alive

theorem Cached.leave (cached : b.Cached) (rep : Represents b size reserve free queue)
    (live : (b.nodes i).live = true) {key : UInt64} {dec : UInt32}
    (removed : Removed b key i dec b') : b'.Cached := by
  have known := rep.levels.known i live
  refine cached.setSideAt (b.nodes i).place known removed.books ?_
    (((cached.best _ known).setLevel (rep.place_mem live)).removeLevelIfEmpty ?_)
    (SideBook.removeLevelIfEmpty_descending.trans (cached.descending _ known))
  · intro j alive
    rcases eq_or_ne j i with rfl | other
    · rw [removed.node_eq, if_pos rfl] at alive
      cases alive
    · rw [removed.node_eq, if_neg other, unlinked_node j other] at alive ⊢
      exact cached.positive j alive
  · intro other level distinct found
    rw [lookup_setLevel, if_neg distinct] at found
    exact cached.level_ne_zero rep (p := { (b.nodes i).place with price := other }) known found

section Runs

variable (cached : b.Cached) (rep : Represents b size reserve free queue)
  (proper : size ≤ kNull.toNat)

theorem Cached.same (cached : b.Cached) (books : b'.books = b.books) (nodes : b'.nodes = b.nodes) :
    b'.Cached := by
  obtain ⟨books', nodes', _, _, _, _⟩ := b'
  subst books nodes
  exact ⟨cached.positive, cached.best, cached.descending⟩

include cached rep proper

theorem Cached.addOrder (room : reserve = [] ∨ free ≠ []) (positive : ev.qty ≠ 0) :
    (b.addOrder ev).1.Cached := by
  rcases rep.addOrder_cases proper room ev with ⟨_, same⟩ | ⟨_, _, same⟩ |
    ⟨known, i, rest, rfl, added, _⟩
  · rw [same]
    exact cached
  · rw [same]
    exact cached.same rfl rfl
  · exact cached.enter rep proper known positive added

theorem Cached.reduceOrder (within : size ≤ capacity) (key : UInt64) (qty : UInt32)
    (deleteAll : Bool) : (b.reduceOrder key qty deleteAll).Cached := by
  cases named : b.orderIndex key with
  | none =>
    simp only [IntrusiveOrderBook.reduceOrder, named]
    exact cached
  | some i =>
    obtain ⟨live, _⟩ := rep.index key i named
    rcases rep.reduceOrder_cases proper within named qty deleteAll with
      ⟨shrunk, stays, _⟩ | ⟨removed, _⟩
    · exact cached.shrink rep live stays shrunk
    · exact cached.leave rep live removed

theorem Cached.replaceOrder (within : size ≤ capacity) (room : reserve = [] ∨ free ≠ [])
    (positive : ev.qty ≠ 0) : (b.replaceOrder ev).Cached := by
  simp only [IntrusiveOrderBook.replaceOrder]
  split
  · exact cached.addOrder rep proper room positive
  · obtain ⟨freed, queue, reduced, grown⟩ := rep.reduceOrder proper within
      (OrderBookEngine.orderKey ev.venue ev.referenceOrderId) 0 true
    refine (cached.reduceOrder rep proper within _ 0 true).addOrder reduced proper
      (room.imp_right ?_) positive
    intro some none
    rw [none] at grown
    exact some (List.suffix_nil.mp grown)

/-- Step lemma: an event that brings no order without quantity keeps the caches. -/
theorem Cached.step (within : size ≤ capacity) (room : reserve = [] ∨ free ≠ [])
    (full : ev.type.adds = true ∨ ev.type = .replace → ev.qty ≠ 0) : (b.step ev).Cached := by
  simp only [IntrusiveOrderBook.step, onEvent, apply]
  cases kind : ev.type
  case add | addMpid =>
    have positive : ev.qty ≠ 0 := full (Or.inl (by rw [kind]; rfl))
    by_cases nonzero : ev.orderId ≠ 0
    · simp only [if_pos nonzero]
      exact cached.addOrder rep proper room positive
    · simp only [if_neg nonzero]
      exact cached
  case execute | executePrice | cancel | delete => exact cached.reduceOrder rep proper within _ _ _
  case replace => exact cached.replaceOrder rep proper within room (full (Or.inr kind))
  all_goals exact cached

end Runs

/-- Add, AddMpid and Replace bring some quantity. -/
def BringsQty (ev : BookEvent) : Prop := ev.type.adds = true ∨ ev.type = .replace → 0 < ev.qty

instance (ev : BookEvent) : Decidable (BringsQty ev) := inferInstanceAs (Decidable (_ → _))

theorem run_cached (capacity : Nat) (events : List BookEvent)
    (fits : capacity < 2 ^ 32 - 1 ∨ events.length < 2 ^ 32 - 1)
    (full : ∀ ev ∈ events, BringsQty ev) : (events.foldl step (create capacity)).Cached := by
  have wide : kNull.toNat = 2 ^ 32 - 1 := rfl
  -- the indices that the pool hands out before it repeats one or reaches the null index
  let size := min capacity kNull.toNat
  have proper : size ≤ kNull.toNat := Nat.min_le_right _ _
  have within : size ≤ capacity := Nat.min_le_left _ _
  let reserve : List UInt32 := (List.range (capacity - size)).map fun n => .ofNat (size + n)
  let Kept (past : List BookEvent) (b : IntrusiveOrderBook capacity) : Prop :=
    past.length ≤ events.length → b.Cached ∧ ∃ free queue,
      Represents b size reserve free queue ∧ size ≤ free.length + past.length
  have start : Kept [] (create capacity) := fun _ =>
    ⟨create_cached, _, _, create_represents proper within, by simp⟩
  have keep : ∀ past b ev, Kept past b → BringsQty ev → Kept (past ++ [ev]) (step b ev) := by
    intro past b ev kept brings more
    rw [List.length_append, List.length_singleton] at more
    obtain ⟨cached, free, queue, rep, used⟩ := kept (by omega)
    have room : reserve = [] ∨ free ≠ [] := by
      rcases fits with small | short
      · refine Or.inl ?_
        have whole : capacity - size = 0 := by omega
        simp [reserve, whole]
      · refine (Nat.eq_zero_or_pos (capacity - size)).imp (fun none => by simp [reserve, none]) ?_
        rintro some rfl
        rw [List.length_nil] at used
        omega
    obtain ⟨freed, queue, kept, less⟩ := rep.step proper within room
    refine ⟨cached.step rep proper within room fun brought => ?_, freed, queue, kept, ?_⟩
    · exact (UInt32.pos_iff_ne_zero.mp (brings brought))
    · rw [List.length_append, List.length_singleton]
      omega
  have along : Run.Along step (fun _ ev => BringsQty ev) (create capacity) events :=
    Run.along_of_forall _ _ full
  have kept := along.history keep [] start
  exact (kept (by simp)).1

/-- The cached top is the top of the sorted snapshot. -/
theorem Cached.topOfBook_eq (cached : b.Cached) (venue : Venue) (symbol : UInt64) :
    b.topOfBook venue symbol = (b.snapshot venue symbol).top := by
  have bids := (cached.best ⟨venue, symbol, .buy, 0⟩ Side.buy_ne_unknown).sortedLevels_eq
  have asks := (cached.best ⟨venue, symbol, .sell, 0⟩ Side.sell_ne_unknown).sortedLevels_eq
  have falling := cached.descending ⟨venue, symbol, .buy, 0⟩ Side.buy_ne_unknown
  have rising := cached.descending ⟨venue, symbol, .sell, 0⟩ Side.sell_ne_unknown
  simp only [sideAt, VenueBook.sideBook, Side.descending, if_true, reduceCtorEq, if_false]
    at bids asks falling rising
  rw [falling] at bids
  rw [rising] at asks
  simp only [topOfBook, VenueBook.top, snapshot, FeedHandler.VenueBook.top, SideBook.bestQty]
  rcases bids with ⟨noBid, bids⟩ | ⟨bid, level, rest, found, bids⟩ <;>
    rcases asks with ⟨noAsk, asks⟩ | ⟨ask, level', rest', found', asks⟩ <;>
      simp_all

/-- The cache knows whether there is a level, and no level has a price beyond the cached one. -/
structure SideBook.Exact (side : SideBook) (within : UInt32 → UInt32 → Prop) : Prop where
  hasBest_iff : side.hasBest = true ↔ ∃ price, price ∈ side.levels
  best : side.hasBest = true →
    side.bestPrice ∈ side.levels ∧ ∀ price ∈ side.levels, within price side.bestPrice

/-- The cached price is the highest bid or the lowest ask, and the top of the book is the first
level of the sorted snapshot. -/
structure BestExact (b : IntrusiveOrderBook capacity) : Prop where
  bids : ∀ venue symbol, (b.books venue symbol).bids.Exact (· ≤ ·)
  asks : ∀ venue symbol, (b.books venue symbol).asks.Exact (· ≥ ·)
  top : ∀ venue symbol, b.topOfBook venue symbol = (b.snapshot venue symbol).top

theorem SideBook.Best.exact {side : SideBook} {within : UInt32 → UInt32 → Prop}
    (best : side.Best side.levels.keys)
    (order : ∀ price, priceBefore side.descending price side.bestPrice = false →
      within price side.bestPrice) : side.Exact within where
  hasBest_iff := by
    rw [best.some_iff]
    exact ⟨List.exists_mem_of_ne_nil _, fun ⟨_, member⟩ => List.ne_nil_of_mem member⟩
  best := fun cached =>
    ⟨best.mem cached, fun price member => order price (best.first cached price member)⟩

theorem Cached.bestExact (cached : b.Cached) : b.BestExact where
  bids := by
    intro venue symbol
    refine (cached.best ⟨venue, symbol, .buy, 0⟩ Side.buy_ne_unknown).exact fun price notBefore => ?_
    rw [cached.descending ⟨venue, symbol, .buy, 0⟩ Side.buy_ne_unknown] at notBefore
    simpa [priceBefore, Side.descending] using notBefore
  asks := by
    intro venue symbol
    refine (cached.best ⟨venue, symbol, .sell, 0⟩ Side.sell_ne_unknown).exact fun price notBefore => ?_
    rw [cached.descending ⟨venue, symbol, .sell, 0⟩ Side.sell_ne_unknown] at notBefore
    simpa [priceBefore, Side.descending] using notBefore
  top := cached.topOfBook_eq

/-- While every new order brings some quantity, the cached best price is exact. -/
theorem run_bestExact (capacity : Nat) (events : List BookEvent)
    (fits : capacity < 2 ^ 32 - 1 ∨ events.length < 2 ^ 32 - 1)
    (full : ∀ ev ∈ events, BringsQty ev) : (events.foldl step (create capacity)).BestExact :=
  (run_cached capacity events fits full).bestExact

/-- Two bids, of which the better one leaves. -/
def betterBidStream : List BookEvent :=
  [{ type := .add, orderId := 1, side := .buy, price := 1000000, qty := 10 },
    { type := .add, orderId := 2, side := .buy, price := 1010000, qty := 20 },
    { type := .delete, orderId := 2 }]

theorem run_bestExact_better_bid : (betterBidStream.foldl step (create 4)).BestExact :=
  run_bestExact 4 betterBidStream (Or.inl (by decide)) (by decide)

end IntrusiveOrderBook
end FeedHandler
