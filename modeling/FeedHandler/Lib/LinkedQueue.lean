import Mathlib.Data.List.Nodup

/-! Doubly linked queues over cells with a previous and a next link. A queue is judged
against the list of its cells, with the cells (or the null value) on either side of it,
so that a queue can be cut at any cell and put together again. -/
namespace LinkedQueue

variable {ι : Type*} {prev next prev' next' : ι → ι} {before after null i : ι} {q xs ys : List ι}

/-- The first cell, or what follows an empty queue. -/
def front (after : ι) (q : List ι) : ι := q.head?.getD after

/-- The last cell, or what precedes an empty queue. -/
def back (before : ι) (q : List ι) : ι := q.getLast?.getD before

@[simp] theorem front_nil : front after [] = after := rfl

@[simp] theorem front_cons : front after (i :: q) = i := rfl

@[simp] theorem back_nil : back before [] = before := rfl

@[simp] theorem back_concat : back before (q ++ [i]) = i := by simp [back]

theorem back_cons : back before (i :: q) = back i q := by
  rcases List.eq_nil_or_concat q with rfl | ⟨front, last, rfl⟩
  · rfl
  · rw [List.concat_eq_append, ← List.cons_append, back_concat, back_concat]

theorem front_append : front after (xs ++ ys) = front (front after ys) xs := by
  cases xs <;> rfl

theorem back_append : back before (xs ++ ys) = back (back before xs) ys := by
  induction xs generalizing before with
  | nil => rfl
  | cons i rest ih => rw [List.cons_append, back_cons, back_cons, ih]

theorem front_mem (nonempty : q ≠ []) : front after q ∈ q := by
  cases q with
  | nil => exact absurd rfl nonempty
  | cons i rest => exact List.mem_cons_self

theorem back_mem (nonempty : q ≠ []) : back before q ∈ q := by
  rcases List.eq_nil_or_concat q with rfl | ⟨front, last, rfl⟩
  · exact absurd rfl nonempty
  · simp

theorem front_mem_of_ne (present : front null q ≠ null) : front null q ∈ q :=
  front_mem fun empty => present (congrArg (front null) empty)

theorem back_mem_of_ne (present : back null q ≠ null) : back null q ∈ q :=
  back_mem fun empty => present (congrArg (back null) empty)

theorem front_eq_null_iff (proper : null ∉ q) : front null q = null ↔ q = [] := by
  refine ⟨fun same => ?_, congrArg (front null)⟩
  by_contra nonempty
  exact proper (same ▸ front_mem nonempty)

theorem back_eq_null_iff (proper : null ∉ q) : back null q = null ↔ q = [] := by
  refine ⟨fun same => ?_, congrArg (back null)⟩
  by_contra nonempty
  exact proper (same ▸ back_mem nonempty)

/-- A cell outside the queue is not its last one. -/
theorem back_ne (fresh : i ∉ q) (notNull : i ≠ null) : back null q ≠ i :=
  fun same => fresh (same ▸ back_mem_of_ne (same.trans_ne notNull))

/-- The cells of `q` are linked one after the other, from `before` to `after`. -/
def Linked (prev next : ι → ι) : ι → List ι → ι → Prop
  | _, [], _ => True
  | before, i :: rest, after =>
    prev i = before ∧ next i = front after rest ∧ Linked prev next i rest after

theorem linked_append : Linked prev next before (xs ++ ys) after ↔
    Linked prev next before xs (front after ys) ∧ Linked prev next (back before xs) ys after := by
  induction xs generalizing before with
  | nil => simp [Linked]
  | cons i rest ih => simp [Linked, ih, front_append, back_cons, and_assoc]

theorem linked_concat : Linked prev next before (q ++ [i]) after ↔
    Linked prev next before q i ∧ prev i = back before q ∧ next i = after := by
  simp [linked_append, Linked]

/-- A queue only sees the links of its own cells. -/
theorem Linked.congr (linked : Linked prev next before q after)
    (prevs : ∀ j ∈ q, prev' j = prev j) (nexts : ∀ j ∈ q, next' j = next j) :
    Linked prev' next' before q after := by
  induction q generalizing before with
  | nil => trivial
  | cons i rest ih =>
    obtain ⟨first, second, tail⟩ := linked
    refine ⟨(prevs i (by simp)).trans first, (nexts i (by simp)).trans second, ?_⟩
    exact ih tail (fun j member => prevs j (by simp [member]))
      (fun j member => nexts j (by simp [member]))

/-- The links around a cell of a queue. -/
theorem Linked.cell (linked : Linked prev next before (xs ++ i :: ys) after) :
    prev i = back before xs ∧ next i = front after ys :=
  ⟨(linked_append.mp linked).2.1, (linked_append.mp linked).2.2.1⟩

variable [DecidableEq ι]

/-- Let the last cell of a queue point elsewhere. -/
theorem Linked.retarget {target : ι} (linked : Linked prev next before q after) (nodup : q.Nodup)
    (prevs : ∀ j ∈ q, prev' j = prev j)
    (nexts : ∀ j ∈ q, next' j = if j = back before q then target else next j) :
    Linked prev' next' before q target := by
  rcases List.eq_nil_or_concat q with rfl | ⟨front, last, rfl⟩
  · trivial
  · rw [List.concat_eq_append] at linked nodup prevs nexts ⊢
    obtain ⟨start, own, _⟩ := linked_concat.mp linked
    have apart : last ∉ front := fun member =>
      (List.nodup_append.mp nodup).2.2 last member last (by simp) rfl
    refine linked_concat.mpr ⟨?_, ?_, ?_⟩
    · refine start.congr (fun j member => prevs j (by simp [member])) ?_
      intro j member
      refine (nexts j (by simp [member])).trans (if_neg ?_)
      rw [back_concat]
      rintro rfl
      exact apart member
    · rw [prevs last (by simp), own]
    · exact (nexts last (by simp)).trans (if_pos back_concat.symm)

/-- Let the first cell of a queue point back elsewhere. -/
theorem Linked.rebase {base : ι} (linked : Linked prev next before q after) (nodup : q.Nodup)
    (prevs : ∀ j ∈ q, prev' j = if j = front after q then base else prev j)
    (nexts : ∀ j ∈ q, next' j = next j) : Linked prev' next' base q after := by
  cases q with
  | nil => trivial
  | cons i rest =>
    obtain ⟨_, own, tail⟩ := linked
    have apart : i ∉ rest := (List.nodup_cons.mp nodup).1
    refine ⟨?_, ?_, ?_⟩
    · exact (prevs i (by simp)).trans (if_pos rfl)
    · rw [nexts i (by simp), own]
    · refine tail.congr ?_ (fun j member => nexts j (by simp [member]))
      intro j member
      refine (prevs j (by simp [member])).trans (if_neg ?_)
      rintro rfl
      exact apart member

/-- A new cell at the end: it points back to the last one, which points to it. -/
theorem Linked.push (linked : Linked prev next null q null) (nodup : q.Nodup)
    (own : prev' i = back null q ∧ next' i = null) (prevs : ∀ j ∈ q, prev' j = prev j)
    (nexts : ∀ j ∈ q, next' j = if j = back null q then i else next j) :
    Linked prev' next' null (q ++ [i]) null :=
  linked_concat.mpr ⟨linked.retarget nodup prevs nexts, own⟩

/-- A cell leaves: the cells around it point to each other. -/
theorem Linked.unlink (linked : Linked prev next null (xs ++ i :: ys) null)
    (nodup : (xs ++ i :: ys).Nodup) (proper : null ∉ xs ++ ys)
    (prevs : ∀ j ∈ xs ++ ys, prev' j = if j = next i then prev i else prev j)
    (nexts : ∀ j ∈ xs ++ ys, next' j = if j = prev i then next i else next j) :
    Linked prev' next' null (xs ++ ys) null := by
  obtain ⟨first, second⟩ := linked.cell
  obtain ⟨left, _, _, right⟩ := linked_append.mp linked
  obtain ⟨nodupLeft, nodupRight, apart⟩ := List.nodup_append.mp nodup
  rw [first, second] at prevs nexts
  refine linked_append.mpr ⟨left.retarget nodupLeft ?_ ?_, right.rebase ?_ ?_ ?_⟩
  · intro j member
    rw [prevs j (by simp [member]), if_neg]
    rintro rfl
    rcases ys with _ | ⟨k, rest⟩
    · exact proper (by simpa using member)
    · exact apart k member k (by simp) rfl
  · exact fun j member => nexts j (by simp [member])
  · exact (List.nodup_cons.mp nodupRight).2
  · exact fun j member => prevs j (by simp [member])
  · intro j member
    rw [nexts j (by simp [member]), if_neg]
    rintro rfl
    rcases eq_or_ne xs [] with rfl | nonempty
    · exact proper (by simpa using member)
    · exact apart _ (back_mem nonempty) _ (List.mem_cons_of_mem _ member) rfl

/-- The cells that are met from a cell on along the next links. -/
def walk (next : ι → ι) (null : ι) : Nat → ι → List ι
  | 0, _ => []
  | fuel + 1, i => if i = null then [] else i :: walk next null fuel (next i)

/-- Walking a queue from its head meets its cells in order. -/
theorem walk_front (linked : Linked prev next before q null) (proper : null ∉ q)
    {fuel : Nat} (enough : q.length ≤ fuel) : walk next null fuel (front null q) = q := by
  induction q generalizing before fuel with
  | nil => cases fuel <;> simp [walk]
  | cons i rest ih =>
    obtain ⟨fuel, rfl⟩ := Nat.exists_eq_add_of_le' enough
    have notNull : i ≠ null := fun same => proper (same ▸ List.mem_cons_self)
    have later := ih linked.2.2 (fun member => proper (List.mem_cons_of_mem _ member))
      (Nat.le_add_left rest.length fuel)
    rw [front_cons, List.length_cons, ← Nat.add_assoc, walk, if_neg notNull, linked.2.1, later]

end LinkedQueue
