import Mathlib.Data.List.TakeWhile

/-! The halving search behind `std::lower_bound`, on a list. The search is run as
the library runs it, also on a list that is not partitioned by the test; only
the correctness theorem asks for a partition. -/
namespace LowerBound

variable {α : Type*}

/-- One loop of the search over the `len` positions from `first` on. -/
def search (below : α → Bool) (l : List α) : Nat → Nat → Nat → Nat
  | 0, first, _ => first
  | fuel + 1, first, len =>
    if len = 0 then first
    else
      match l[first + len / 2]? with
      | none => first
      | some x =>
        if below x then search below l fuel (first + len / 2 + 1) (len - len / 2 - 1)
        else search below l fuel first (len / 2)

/-- Position of the first element that is not `below`, when `l` is partitioned. -/
def index (below : α → Bool) (l : List α) : Nat := search below l l.length 0 l.length

/-- The loop keeps the partition point inside the interval it still searches. -/
theorem search_partition {below : α → Bool} {front back : List α}
    (low : ∀ x ∈ front, below x = true) (high : ∀ x ∈ back, below x = false)
    (fuel first len : Nat) (enough : len ≤ fuel) (left : first ≤ front.length)
    (right : front.length ≤ first + len) (inside : first + len ≤ (front ++ back).length) :
    search below (front ++ back) fuel first len = front.length := by
  induction fuel generalizing first len with
  | zero => simp only [search]; omega
  | succ fuel ih =>
    simp only [search]
    split
    · omega
    · have bound : first + len / 2 < (front ++ back).length := by omega
      rw [List.getElem?_eq_getElem bound]
      by_cases side : first + len / 2 < front.length
      · have lower : below (front ++ back)[first + len / 2] = true := by
          rw [List.getElem_append_left side]
          exact low _ (List.getElem_mem side)
        simp only [lower, if_true]
        exact ih _ _ (by omega) (by omega) (by omega) (by omega)
      · have upper : below (front ++ back)[first + len / 2] = false := by
          rw [List.getElem_append_right (by omega)]
          exact high _ (List.getElem_mem _)
        simp only [upper, Bool.false_eq_true, if_false]
        exact ih _ _ (by omega) (by omega) (by omega) (by omega)

/-- On a partitioned list the search returns the partition point. -/
theorem index_partition {below : α → Bool} {front back : List α}
    (low : ∀ x ∈ front, below x = true) (high : ∀ x ∈ back, below x = false) :
    index below (front ++ back) = front.length := by
  apply search_partition low high
  · exact Nat.le_refl _
  · exact Nat.zero_le _
  · simp
  · simp

/-- A list on which the test only turns from true to false is divided by the answer. -/
theorem index_divides {below : α → Bool} {l : List α}
    (falls : l.Pairwise fun a b => below b = true → below a = true) :
    ∃ front back, l = front ++ back ∧ index below l = front.length ∧
      (∀ x ∈ front, below x = true) ∧ ∀ x ∈ back, below x = false := by
  have low : ∀ x ∈ l.takeWhile below, below x = true := fun x member =>
    List.mem_takeWhile_imp member
  have high : ∀ x ∈ l.dropWhile below, below x = false := by
    rw [← List.takeWhile_append_dropWhile (p := below) (l := l)] at falls
    have back := (List.pairwise_append.mp falls).2.1
    cases rest : l.dropWhile below with
    | nil => simp
    | cons first later =>
      have stopped : below first = false := by
        have kept := List.head_dropWhile_not below (l := l) (by simp [rest])
        simpa [rest] using kept
      rw [rest] at back
      intro x member
      rcases List.mem_cons.mp member with rfl | behind
      · exact stopped
      · exact Bool.eq_false_iff.mpr fun lower =>
          absurd ((List.pairwise_cons.mp back).1 x behind lower) (by simp [stopped])
  refine ⟨l.takeWhile below, l.dropWhile below, List.takeWhile_append_dropWhile.symm, ?_, low, high⟩
  have answer := index_partition low high
  rwa [List.takeWhile_append_dropWhile] at answer

/-- On any list, what stands just left of the answer of the loop was tested and is `below`. -/
theorem search_below (below : α → Bool) (l : List α) (fuel first len : Nat) :
    search below l fuel first len = first ∨
      ∃ x, l[search below l fuel first len - 1]? = some x ∧ below x = true ∧
        first < search below l fuel first len := by
  induction fuel generalizing first len with
  | zero => exact Or.inl rfl
  | succ fuel ih =>
    simp only [search]
    split
    · exact Or.inl rfl
    · split
      · exact Or.inl rfl
      · next x tested =>
        split
        · next lower =>
          rcases ih (first + len / 2 + 1) (len - len / 2 - 1) with stopped | ⟨y, left, low, past⟩
          · right
            rw [stopped]
            exact ⟨x, tested, lower, by omega⟩
          · exact Or.inr ⟨y, left, low, by omega⟩
        · exact ih first (len / 2)

/-- The answer is never just right of an element that is not `below`. -/
theorem index_below {below : α → Bool} {l : List α} {i : Nat} {x : α}
    (answer : index below l = i + 1) (left : l[i]? = some x) : below x = true := by
  rcases search_below below l l.length 0 l.length with stopped | ⟨y, found, low, _⟩
  · simp only [index] at answer
    omega
  · simp only [index] at answer
    rw [answer, Nat.add_sub_cancel, left] at found
    cases found
    exact low

end LowerBound
