import Mathlib.Data.List.Basic
import Mathlib.Order.Lattice

/-! A finite map kept as its entries in strictly increasing key order, with the
operations of `std::map` that a bounded buffer uses. The order is a field, so
every map value satisfies it and no operation needs it as a premise. -/

structure OrderedMap (κ α : Type*) [LinearOrder κ] where
  entries : List (κ × α) := []
  sorted : entries.Pairwise (fun a b => a.1 < b.1) := by simp

namespace OrderedMap

variable {κ α : Type*} [LinearOrder κ] {m : OrderedMap κ α} {k j : κ} {a b : α}

def empty : OrderedMap κ α := {}

def size (m : OrderedMap κ α) : Nat := m.entries.length

def keys (m : OrderedMap κ α) : List κ := m.entries.map Prod.fst

def find? (m : OrderedMap κ α) (k : κ) : Option α :=
  (m.entries.find? (fun e => decide (e.1 = k))).map Prod.snd

/-- Sorted position insertion; an entry with the same key is overwritten. -/
def place (k : κ) (a : α) : List (κ × α) → List (κ × α)
  | [] => [(k, a)]
  | (j, b) :: rest =>
    if k < j then (k, a) :: (j, b) :: rest
    else if k = j then (k, a) :: rest
    else (j, b) :: place k a rest

theorem mem_place {l : List (κ × α)} (sorted : l.Pairwise (fun a b => a.1 < b.1))
    {e : κ × α} : e ∈ place k a l ↔ e = (k, a) ∨ (e.1 ≠ k ∧ e ∈ l) := by
  induction l with
  | nil => simp [place]
  | cons head rest ih =>
    obtain ⟨j, b⟩ := head
    obtain ⟨first, tail⟩ := List.pairwise_cons.mp sorted
    have later : ∀ e ∈ rest, j < e.1 := fun e member => first e member
    simp only [place]
    split
    · next smaller =>
      have distinct : ∀ e ∈ (j, b) :: rest, e.1 ≠ k := by
        intro e member
        rcases List.mem_cons.mp member with rfl | member
        · exact ne_of_gt smaller
        · exact ne_of_gt (smaller.trans (later e member))
      simp only [List.mem_cons] at distinct ⊢
      constructor
      · rintro (same | other)
        · exact Or.inl same
        · exact Or.inr ⟨distinct e other, other⟩
      · rintro (same | ⟨_, other⟩)
        · exact Or.inl same
        · exact Or.inr other
    · split
      · next _ same =>
        subst same
        have distinct : ∀ e ∈ rest, e.1 ≠ k := fun e member => ne_of_gt (later e member)
        simp only [List.mem_cons]
        constructor
        · rintro (same | other)
          · exact Or.inl same
          · exact Or.inr ⟨distinct e other, Or.inr other⟩
        · rintro (same | ⟨differs, rfl | other⟩)
          · exact Or.inl same
          · exact absurd rfl differs
          · exact Or.inr other
      · next _ differs =>
        simp only [List.mem_cons, ih tail]
        constructor
        · rintro (rfl | same | ⟨other, member⟩)
          · exact Or.inr ⟨fun h => differs h.symm, Or.inl rfl⟩
          · exact Or.inl same
          · exact Or.inr ⟨other, Or.inr member⟩
        · rintro (same | ⟨other, rfl | member⟩)
          · exact Or.inr (Or.inl same)
          · exact Or.inl rfl
          · exact Or.inr (Or.inr ⟨other, member⟩)

theorem place_sorted {l : List (κ × α)} (sorted : l.Pairwise (fun a b => a.1 < b.1)) :
    (place k a l).Pairwise (fun a b => a.1 < b.1) := by
  induction l with
  | nil => simp [place]
  | cons head rest ih =>
    obtain ⟨j, b⟩ := head
    obtain ⟨first, tail⟩ := List.pairwise_cons.mp sorted
    have later : ∀ e ∈ rest, j < e.1 := fun e member => first e member
    simp only [place]
    split
    · next smaller =>
      refine List.pairwise_cons.mpr ⟨?_, sorted⟩
      intro e member
      rcases List.mem_cons.mp member with rfl | member
      · exact smaller
      · exact smaller.trans (later e member)
    · split
      · next _ same =>
        subst same
        exact List.pairwise_cons.mpr ⟨later, tail⟩
      · next notSmaller differs =>
        refine List.pairwise_cons.mpr ⟨?_, ih tail⟩
        intro e member
        rcases (mem_place tail).mp member with rfl | ⟨_, member⟩
        · exact lt_of_le_of_ne (not_lt.mp notSmaller) (Ne.symm differs)
        · exact later e member

/-- `m[k] = a`: overwrite the value of `k` or add the entry. -/
def insert (m : OrderedMap κ α) (k : κ) (a : α) : OrderedMap κ α where
  entries := place k a m.entries
  sorted := place_sorted m.sorted

def erase (m : OrderedMap κ α) (k : κ) : OrderedMap κ α where
  entries := m.entries.filter (fun e => decide (e.1 ≠ k))
  sorted := m.sorted.filter _

/-- Erase the range from the first entry to the lower bound of `k`. -/
def eraseBelow (m : OrderedMap κ α) (k : κ) : OrderedMap κ α where
  entries := m.entries.dropWhile (fun e => decide (e.1 < k))
  sorted := m.sorted.sublist (List.dropWhile_sublist _)

theorem unique_key {l : List (κ × α)} (sorted : l.Pairwise (fun a b => a.1 < b.1))
    {e f : κ × α} (he : e ∈ l) (hf : f ∈ l) (same : e.1 = f.1) : e = f := by
  induction l with
  | nil => cases he
  | cons head rest ih =>
    obtain ⟨first, tail⟩ := List.pairwise_cons.mp sorted
    rcases List.mem_cons.mp he with here | inRest
    · rcases List.mem_cons.mp hf with there | other
      · rw [here, there]
      · exact absurd same (here ▸ ne_of_lt (first f other))
    · rcases List.mem_cons.mp hf with there | other
      · exact absurd same (there ▸ ne_of_gt (first e inRest))
      · exact ih tail inRest other

/-- Lookup is membership of the entry. -/
theorem find?_eq_some : m.find? k = some a ↔ (k, a) ∈ m.entries := by
  simp only [find?, Option.map_eq_some_iff]
  constructor
  · rintro ⟨e, found, rfl⟩
    have member := List.mem_of_find?_eq_some found
    have key := List.find?_some found
    simp only [decide_eq_true_eq] at key
    subst key
    exact member
  · intro member
    cases found : m.entries.find? (fun e => decide (e.1 = k)) with
    | none =>
      have missing := List.find?_eq_none.mp found (k, a) member
      simp at missing
    | some e =>
      have key := List.find?_some found
      simp only [decide_eq_true_eq] at key
      have same := unique_key m.sorted (List.mem_of_find?_eq_some found) member key
      exact ⟨e, rfl, by rw [same]⟩

theorem mem_keys : k ∈ m.keys ↔ ∃ a, m.find? k = some a := by
  simp only [keys, List.mem_map, find?_eq_some]
  constructor
  · rintro ⟨⟨j, a⟩, member, rfl⟩
    exact ⟨a, member⟩
  · rintro ⟨a, member⟩
    exact ⟨(k, a), member, rfl⟩

theorem find?_eq_none : m.find? k = none ↔ k ∉ m.keys := by
  rw [mem_keys, Option.eq_none_iff_forall_ne_some, not_exists]

@[simp] theorem find?_insert : (m.insert k a).find? j = if j = k then some a else m.find? j := by
  apply Option.ext
  intro b
  rw [find?_eq_some, insert, mem_place m.sorted]
  split
  · next same =>
    subst same
    simp [eq_comm]
  · next differs =>
    rw [find?_eq_some]
    simp [differs]

@[simp] theorem find?_erase : (m.erase k).find? j = if j = k then none else m.find? j := by
  apply Option.ext
  intro b
  rw [find?_eq_some, erase, List.mem_filter]
  split
  · next same => simp [same]
  · next differs => simp [differs, find?_eq_some]

theorem mem_dropWhile {l : List (κ × α)} (sorted : l.Pairwise (fun a b => a.1 < b.1))
    {e : κ × α} : e ∈ l.dropWhile (fun e => decide (e.1 < k)) ↔ k ≤ e.1 ∧ e ∈ l := by
  induction l with
  | nil => simp
  | cons head rest ih =>
    obtain ⟨first, tail⟩ := List.pairwise_cons.mp sorted
    by_cases low : head.1 < k
    · simp only [List.dropWhile_cons, low, decide_true, if_true, ih tail, List.mem_cons]
      constructor
      · rintro ⟨bound, member⟩
        exact ⟨bound, Or.inr member⟩
      · rintro ⟨bound, rfl | member⟩
        · exact absurd low (not_lt.mpr bound)
        · exact ⟨bound, member⟩
    · simp only [List.dropWhile_cons, low, decide_false, Bool.false_eq_true, if_false,
        List.mem_cons]
      constructor
      · rintro (rfl | member)
        · exact ⟨not_lt.mp low, Or.inl rfl⟩
        · exact ⟨(not_lt.mp low).trans (first e member).le, Or.inr member⟩
      · rintro ⟨_, member⟩
        exact member

@[simp] theorem find?_eraseBelow :
    (m.eraseBelow k).find? j = if j < k then none else m.find? j := by
  apply Option.ext
  intro b
  rw [find?_eq_some, eraseBelow, mem_dropWhile m.sorted]
  split
  · next low => simp [not_le.mpr low]
  · next high => simp [find?_eq_some, not_lt.mp high]

theorem size_eraseBelow_le : (m.eraseBelow k).size ≤ m.size :=
  (List.dropWhile_sublist _).length_le

theorem length_place {l : List (κ × α)} (sorted : l.Pairwise (fun a b => a.1 < b.1)) :
    (place k a l).length = if k ∈ l.map Prod.fst then l.length else l.length + 1 := by
  induction l with
  | nil => simp [place]
  | cons head rest ih =>
    obtain ⟨j, b⟩ := head
    obtain ⟨first, tail⟩ := List.pairwise_cons.mp sorted
    simp only [place]
    split
    · next smaller =>
      have absent : k ∉ ((j, b) :: rest).map Prod.fst := by
        intro member
        obtain ⟨e, present, rfl⟩ := List.mem_map.mp member
        rcases List.mem_cons.mp present with rfl | inRest
        · exact lt_irrefl _ smaller
        · exact lt_asymm smaller (first e inRest)
      rw [if_neg absent, List.length_cons]
    · split
      · next _ same => simp [same]
      · next _ differs =>
        simp only [List.length_cons, ih tail, List.map_cons, List.mem_cons, differs, false_or]
        split <;> rfl

theorem size_insert_mem (member : k ∈ m.keys) : (m.insert k a).size = m.size := by
  simp only [size, insert, length_place m.sorted]
  exact if_pos member

theorem size_insert_fresh (fresh : k ∉ m.keys) : (m.insert k a).size = m.size + 1 := by
  simp only [size, insert, length_place m.sorted]
  exact if_neg fresh

theorem length_filter_key {l : List (κ × α)} (sorted : l.Pairwise (fun a b => a.1 < b.1))
    (member : k ∈ l.map Prod.fst) :
    (l.filter (fun e => decide (e.1 ≠ k))).length + 1 = l.length := by
  induction l with
  | nil => simp at member
  | cons head rest ih =>
    obtain ⟨first, tail⟩ := List.pairwise_cons.mp sorted
    by_cases same : head.1 = k
    · have others : rest.filter (fun e => decide (e.1 ≠ k)) = rest := by
        apply List.filter_eq_self.mpr
        intro e present
        simpa [same] using ne_of_gt (first e present)
      rw [List.filter_cons_of_neg (by simpa using same), others, List.length_cons]
    · have inside : k ∈ rest.map Prod.fst := by
        rcases List.mem_cons.mp member with here | there
        · exact absurd here.symm same
        · exact there
      rw [List.filter_cons_of_pos (by simpa using same), List.length_cons, List.length_cons,
        ih tail inside]

theorem size_erase_mem (member : k ∈ m.keys) : (m.erase k).size + 1 = m.size :=
  length_filter_key m.sorted member

end OrderedMap
