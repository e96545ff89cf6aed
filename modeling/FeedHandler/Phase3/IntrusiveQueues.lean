import FeedHandler.Lib.LinkedQueue
import FeedHandler.Phase3.IntrusiveOrderBook

/-! The shape of the node pool. Every level has a ghost list, the nodes of its queue from
head to tail, and every step of the book is a step on these lists: a new order goes to the
end of one of them, an order that is used up leaves its own. -/
namespace FeedHandler
namespace IntrusiveOrderBook
open LinkedQueue

/-- Where a level is in the books. -/
structure Place where
  venue : Venue
  symbol : UInt64
  side : Side
  price : UInt32
  deriving DecidableEq, Repr

def OrderNode.place (node : OrderNode) : Place where
  venue := node.venue
  symbol := node.symbolU64
  side := node.side
  price := node.price

variable {capacity : Nat} {b b' : IntrusiveOrderBook capacity}

def sideAt (b : IntrusiveOrderBook capacity) (p : Place) : SideBook :=
  (b.books p.venue p.symbol).sideBook p.side

def levelAt (b : IntrusiveOrderBook capacity) (p : Place) : Option Level :=
  (b.sideAt p).levels.lookup p.price

def setSideAt (b : IntrusiveOrderBook capacity) (p : Place) (content : SideBook) :
    IntrusiveOrderBook capacity :=
  b.setSideBook p.venue p.symbol p.side content

/-- The links, the ends and the quantity of a level agree with a list of nodes. -/
structure QueueOk (nodes : UInt32 → OrderNode) (level : Level) (q : List UInt32) : Prop where
  head : level.head = front kNull q
  tail : level.tail = back kNull q
  linked : Linked (fun i => (nodes i).prev) (fun i => (nodes i).next) kNull q kNull
  qty : level.qty.toNat = (q.map fun i => (nodes i).qty.toNat).sum

section Levels

variable {side : SideBook} {price other : UInt32} {level : Level}

@[simp] theorem updateBestOnAdd_levels : (side.updateBestOnAdd price).levels = side.levels := by
  simp only [SideBook.updateBestOnAdd]
  split
  · rfl
  · split <;> rfl

@[simp] theorem updateBestOnAdd_descending :
    (side.updateBestOnAdd price).descending = side.descending := by
  simp only [SideBook.updateBestOnAdd]
  split
  · rfl
  · split <;> rfl

/-- The scan changes nothing but the cache. -/
theorem recomputeBest_frame :
    side.recomputeBest.levels = side.levels ∧ side.recomputeBest.descending = side.descending := by
  have scan : ∀ (entries : List (Sigma fun _ : UInt32 => Level)) (start : SideBook),
      (entries.foldl (fun side entry =>
        if entry.2.qty = 0 then side else side.updateBestOnAdd entry.1) start).levels =
          start.levels ∧
      (entries.foldl (fun side entry =>
        if entry.2.qty = 0 then side else side.updateBestOnAdd entry.1) start).descending =
          start.descending := by
    intro entries
    induction entries with
    | nil => exact fun _ => ⟨rfl, rfl⟩
    | cons entry rest ih =>
      intro start
      rw [List.foldl_cons, (ih _).1, (ih _).2]
      split
      · exact ⟨rfl, rfl⟩
      · exact ⟨updateBestOnAdd_levels, updateBestOnAdd_descending⟩
  exact scan _ _

theorem lookup_setLevel : (side.setLevel price level).levels.lookup other =
    if other = price then some level else side.levels.lookup other := by
  simp only [SideBook.setLevel]
  split
  · next same => rw [same, AList.lookup_insert]
  · next distinct => rw [AList.lookup_insert_ne distinct]

/-- The level found or added, as it is before it is changed. -/
theorem findOrAddLevel_snd : (side.findOrAddLevel price).2 =
    (side.levels.lookup price).getD { price := price } := by
  simp only [SideBook.findOrAddLevel]
  cases side.levels.lookup price <;> rfl

theorem lookup_findOrAddLevel (distinct : other ≠ price) :
    (side.findOrAddLevel price).1.levels.lookup other = side.levels.lookup other := by
  simp only [SideBook.findOrAddLevel]
  cases side.levels.lookup price with
  | some level => rfl
  | none =>
    simp only [updateBestOnAdd_levels]
    rw [AList.lookup_insert_ne distinct]

theorem lookup_removeLevelIfEmpty (found : side.levels.lookup price = some level) :
    (side.removeLevelIfEmpty price).levels.lookup other =
      if other = price ∧ level.qty = 0 ∧ level.head = kNull then none
      else side.levels.lookup other := by
  simp only [SideBook.removeLevelIfEmpty, found]
  by_cases stays : level.qty ≠ 0 ∨ level.head ≠ kNull
  · rw [if_pos stays, if_neg]
    rintro ⟨_, empty, headless⟩
    rcases stays with present | present
    · exact present empty
    · exact present headless
  · have empty : level.qty = 0 ∧ level.head = kNull := by
      simpa only [not_or, not_not] using stays
    have erased : (side.levels.erase price).lookup other =
        if other = price ∧ level.qty = 0 ∧ level.head = kNull then none
        else side.levels.lookup other := by
      by_cases same : other = price
      · rw [if_pos ⟨same, empty⟩, same, AList.lookup_erase]
      · rw [if_neg (fun both => same both.1), AList.lookup_erase_ne same]
    rw [if_neg stays]
    split
    · rw [recomputeBest_frame.1]
      exact erased
    · exact erased

end Levels

theorem sideBook_setSide {book : VenueBook} {side other : Side} {content : SideBook}
    (known : side ≠ .unknown) (otherKnown : other ≠ .unknown) :
    (book.setSide side content).sideBook other =
      if other = side then content else book.sideBook other := by
  cases side <;> cases other <;> first | rfl | exact absurd rfl known | exact absurd rfl otherKnown

theorem levelAt_setSideBook {venue : Venue} {symbol : UInt64} {side : Side} {content : SideBook}
    {p : Place} (known : side ≠ .unknown) (otherKnown : p.side ≠ .unknown) :
    (b.setSideBook venue symbol side content).levelAt p =
      if p.venue = venue ∧ p.symbol = symbol ∧ p.side = side then content.levels.lookup p.price
      else b.levelAt p := by
  simp only [levelAt, sideAt, setSideBook, update_book]
  by_cases here : p.venue = venue ∧ p.symbol = symbol
  · obtain ⟨rfl, rfl⟩ := here
    rw [if_pos ⟨rfl, rfl⟩, sideBook_setSide known otherKnown]
    by_cases sameSide : p.side = side <;> simp [sameSide]
  · rw [if_neg here, if_neg (fun same => here ⟨same.1, same.2.1⟩)]

/-- One level of the books changes. -/
theorem levelAt_change {place p : Place} {content : SideBook} {changed : Option Level}
    (known : place.side ≠ .unknown) (otherKnown : p.side ≠ .unknown)
    (books : b'.books = (b.setSideAt place content).books)
    (lookup : ∀ price, content.levels.lookup price =
      if price = place.price then changed else (b.sideAt place).levels.lookup price) :
    b'.levelAt p = if p = place then changed else b.levelAt p := by
  have moved : b'.levelAt p = (b.setSideAt place content).levelAt p := by
    simp only [levelAt, sideAt, books]
  rw [moved, setSideAt, levelAt_setSideBook known otherKnown]
  obtain ⟨venue, symbol, side, price⟩ := p
  by_cases here : venue = place.venue ∧ symbol = place.symbol ∧ side = place.side
  · obtain ⟨rfl, rfl, rfl⟩ := here
    rw [if_pos ⟨rfl, rfl, rfl⟩, lookup]
    by_cases same : price = place.price
    · rw [if_pos same, if_pos (by rw [same])]
    · rw [if_neg same, if_neg (fun equal => same (congrArg Place.price equal))]
      rfl
  · rw [if_neg here, if_neg]
    rintro rfl
    exact here ⟨rfl, rfl, rfl⟩

section Queue

variable {nodes nodes' : UInt32 → OrderNode} {level : Level} {q xs ys : List UInt32} {i : UInt32}
  {node : OrderNode}

theorem appendNode_nodes (apart : level.tail ≠ i) (j : UInt32) :
    (appendNode nodes level i node).1 j =
      if j = i then { node with prev := level.tail }
      else { nodes j with
        next := if j = level.tail ∧ level.tail ≠ kNull then i else (nodes j).next } := by
  simp only [appendNode]
  by_cases tailed : level.tail ≠ kNull
  · simp only [if_pos tailed, Function.update_apply, if_neg apart]
    by_cases last : j = level.tail
    · subst last
      simp [apart, tailed]
    · simp [last]
  · simp only [if_neg tailed, Function.update_apply]
    simp [tailed]

theorem appendNode_level : (appendNode nodes level i node).2 =
    { level with
      head := if level.tail ≠ kNull then level.head else i
      tail := i
      qty := level.qty + node.qty.toUInt64 } := by
  simp only [appendNode]
  split <;> rfl

theorem unlinkNode_nodes (j : UInt32) :
    (unlinkNode nodes level node).1 j =
      { nodes j with
        next := if j = node.prev ∧ node.prev ≠ kNull then node.next else (nodes j).next
        prev := if j = node.next ∧ node.next ≠ kNull then node.prev else (nodes j).prev } := by
  simp only [unlinkNode]
  by_cases first : node.prev = kNull <;> by_cases last : node.next = kNull <;>
    simp only [first, last, ne_eq, not_true_eq_false, not_false_eq_true, if_true, if_false,
      and_true, and_false, Function.update_apply]
  · by_cases after : j = node.next
    · subst after
      simp
    · simp [after]
  · by_cases before : j = node.prev
    · subst before
      simp
    · simp [before]
  · by_cases after : j = node.next
    · subst after
      by_cases before : node.next = node.prev <;> simp [before]
    · simp only [if_neg after]
      by_cases before : j = node.prev <;> simp [before]

theorem unlinkNode_level : (unlinkNode nodes level node).2 =
    { level with
      head := if node.prev ≠ kNull then level.head else node.next
      tail := if node.next ≠ kNull then level.tail else node.prev } := by
  simp only [unlinkNode]
  split <;> split <;> rfl

theorem QueueOk.congr (ok : QueueOk nodes level q) (same : ∀ j ∈ q, nodes' j = nodes j) :
    QueueOk nodes' level q where
  head := ok.head
  tail := ok.tail
  linked := ok.linked.congr (fun j member => by rw [same j member])
    (fun j member => by rw [same j member])
  qty := by
    rw [ok.qty]
    refine congrArg List.sum (List.map_congr_left ?_)
    intro j member
    rw [same j member]

/-- A level is looked at for removal by its quantity and its head. -/
theorem QueueOk.gone_iff (ok : QueueOk nodes level q) (proper : kNull ∉ q) :
    level.qty = 0 ∧ level.head = kNull ↔ q = [] := by
  constructor
  · rintro ⟨_, headless⟩
    exact (front_eq_null_iff proper).mp (ok.head.symm.trans headless)
  · rintro rfl
    exact ⟨UInt64.toNat_inj.mp ok.qty, ok.head⟩

theorem queueOk_nil (price : UInt32) : QueueOk nodes { price := price } [] where
  head := rfl
  tail := rfl
  linked := trivial
  qty := rfl

/-- A new node at the end of the queue. -/
theorem QueueOk.push (ok : QueueOk nodes level q) (nodup : q.Nodup) (fresh : i ∉ q)
    (proper : kNull ∉ q) (last : node.next = kNull) (notNull : i ≠ kNull)
    (small : (q.map fun j => (nodes j).qty.toNat).sum + node.qty.toNat < wordSize) :
    QueueOk (appendNode nodes level i node).1 (appendNode nodes level i node).2 (q ++ [i]) := by
  have apart : level.tail ≠ i := by
    rw [ok.tail]
    exact back_ne fresh notNull
  have tailed : q ≠ [] → back kNull q ≠ kNull := mt (back_eq_null_iff proper).mp
  have inside : ∀ j ∈ q, (appendNode nodes level i node).1 j =
      { nodes j with next := if j = back kNull q then i else (nodes j).next } := by
    intro j member
    have distinct : j ≠ i := fun same => fresh (same ▸ member)
    rw [appendNode_nodes apart, if_neg distinct, ok.tail]
    simp only [tailed (List.ne_nil_of_mem member), ne_eq, not_false_eq_true, and_true]
  have own : (appendNode nodes level i node).1 i = { node with prev := back kNull q } := by
    rw [appendNode_nodes apart, if_pos rfl, ok.tail]
  constructor
  · rw [appendNode_level, front_append]
    simp only [front_cons, ok.tail, ok.head]
    rcases eq_or_ne q [] with rfl | nonempty
    · rfl
    · rw [if_pos (tailed nonempty)]
      cases q with
      | nil => exact absurd rfl nonempty
      | cons first rest => rfl
  · rw [appendNode_level, back_concat]
  · refine ok.linked.push nodup ⟨by rw [own], by rw [own, last]⟩ ?_ ?_
    · exact fun j member => by rw [inside j member]
    · exact fun j member => by rw [inside j member]
  · have kept : (q.map fun j => ((appendNode nodes level i node).1 j).qty.toNat) =
        q.map fun j => (nodes j).qty.toNat :=
      List.map_congr_left fun j member => by rw [inside j member]
    rw [appendNode_level, List.map_append, List.sum_append, kept, UInt64.toNat_add, ok.qty,
      UInt32.toNat_toUInt64]
    simp only [List.map_cons, List.map_nil, List.sum_cons, List.sum_nil, own, Nat.add_zero]
    exact Nat.mod_eq_of_lt small

/-- A field that the new node has from the old one stays everywhere. -/
theorem update_field {β : Type*} (field : OrderNode → β) (same : field node = field (nodes i))
    (j : UInt32) : field (Function.update nodes i node j) = field (nodes j) := by
  rw [Function.update_apply]
  split
  · next here => rw [same, here]
  · rfl

/-- A node of the queue loses part of its quantity. -/
theorem QueueOk.shrink {dec : UInt32} (ok : QueueOk nodes level q) (nodup : q.Nodup)
    (member : i ∈ q) (enough : dec ≤ (nodes i).qty) :
    QueueOk (Function.update nodes i { nodes i with qty := (nodes i).qty - dec })
      { level with qty := if level.qty > dec.toUInt64 then level.qty - dec.toUInt64 else 0 } q := by
  refine ⟨ok.head, ok.tail, ?_, ?_⟩
  · refine ok.linked.congr ?_ ?_
    · exact fun j _ => update_field OrderNode.prev (by rfl) j
    · exact fun j _ => update_field OrderNode.next (by rfl) j
  · obtain ⟨xs, ys, rfl⟩ := List.append_of_mem member
    have outside : ∀ zs : List UInt32, i ∉ zs → (zs.map fun j => (Function.update nodes i
        { nodes i with qty := (nodes i).qty - dec } j).qty.toNat) =
          zs.map fun j => (nodes j).qty.toNat := by
      intro zs absent
      refine List.map_congr_left fun j inside => ?_
      have distinct : j ≠ i := fun same => absent (same ▸ inside)
      rw [Function.update_of_ne distinct]
    obtain ⟨left, right⟩ : i ∉ xs ∧ i ∉ ys := by
      rw [List.nodup_middle, List.nodup_cons, List.mem_append, not_or] at nodup
      exact nodup.1
    have total := ok.qty
    have part := UInt32.toNat_sub_of_le _ _ enough
    have within := UInt32.le_iff_toNat_le.mp enough
    simp only [List.map_append, List.map_cons, List.sum_append, List.sum_cons,
      outside xs left, outside ys right, Function.update_self, part] at total ⊢
    split
    · next more =>
      rw [UInt64.toNat_sub_of_le _ _ (UInt64.le_of_lt more), UInt32.toNat_toUInt64]
      omega
    · next rest =>
      have below := UInt64.le_iff_toNat_le.mp (UInt64.not_lt.mp rest)
      rw [UInt32.toNat_toUInt64] at below
      simp only [UInt64.toNat_zero]
      omega

/-- A node without quantity leaves the queue. -/
theorem QueueOk.unlink (ok : QueueOk nodes level (xs ++ i :: ys)) (nodup : (xs ++ i :: ys).Nodup)
    (proper : kNull ∉ xs ++ i :: ys) (used : (nodes i).qty = 0) :
    QueueOk (Function.update (unlinkNode nodes level (nodes i)).1 i {})
      (unlinkNode nodes level (nodes i)).2 (xs ++ ys) := by
  obtain ⟨first, last⟩ := ok.linked.cell
  have absent : i ∉ xs ++ ys := by
    rw [List.nodup_middle, List.nodup_cons] at nodup
    exact nodup.1
  have notNull : kNull ∉ xs ++ ys := fun member =>
    proper (List.perm_middle.mem_iff.mpr (List.mem_cons_of_mem _ member))
  have inside : ∀ j ∈ xs ++ ys, Function.update (unlinkNode nodes level (nodes i)).1 i {} j =
      { nodes j with
        next := if j = (nodes i).prev then (nodes i).next else (nodes j).next
        prev := if j = (nodes i).next then (nodes i).prev else (nodes j).prev } := by
    intro j member
    have distinct : j ≠ i := fun same => absent (same ▸ member)
    have proper : j ≠ kNull := fun same => notNull (same ▸ member)
    have here : ∀ k, (j = k ∧ k ≠ kNull) ↔ j = k :=
      fun k => ⟨And.left, fun same => ⟨same, same ▸ proper⟩⟩
    rw [Function.update_of_ne distinct, unlinkNode_nodes]
    simp only [here]
  constructor
  · rw [unlinkNode_level]
    simp only [first, last, ok.head]
    cases xs with
    | nil => rfl
    | cons x rest =>
      have proper : kNull ∉ x :: rest := fun member => notNull (List.mem_append_left _ member)
      rw [if_pos (mt (back_eq_null_iff proper).mp (List.cons_ne_nil x rest))]
      rfl
  · rw [unlinkNode_level]
    simp only [first, last, ok.tail]
    cases ys with
    | nil => rw [List.append_nil, front_nil, if_neg (not_not.mpr rfl)]
    | cons y rest =>
      have after : y ≠ kNull := fun same => notNull (by simp [same])
      rw [front_cons, if_pos after, back_append, back_append, back_cons, back_cons, back_cons]
  · refine ok.linked.unlink nodup notNull ?_ ?_
    · exact fun j member => by rw [inside j member]
    · exact fun j member => by rw [inside j member]
  · have total := ok.qty
    have kept : ((xs ++ ys).map fun j =>
        (Function.update (unlinkNode nodes level (nodes i)).1 i {} j).qty.toNat) =
          (xs ++ ys).map fun j => (nodes j).qty.toNat :=
      List.map_congr_left fun j member => by rw [inside j member]
    rw [kept, unlinkNode_level]
    simp only [List.map_append, List.map_cons, List.sum_append, List.sum_cons, used,
      UInt32.toNat_zero, Nat.zero_add] at total ⊢
    exact total

end Queue

end IntrusiveOrderBook
end FeedHandler
