import Mathlib.Data.List.Nodup

/-! Cutting a list into blocks: what is in a cut, what a loop over the positions outside of it
keeps, and that cuts at the multiples of a width put the list together again. -/
namespace ListBlocks

variable {α : Type*} {xs : List α} {x : α} {start stop : Nat}

theorem mem_cut :
    x ∈ (xs.take stop).drop start ↔ ∃ p, start ≤ p ∧ p < stop ∧ xs[p]? = some x := by
  rw [List.mem_iff_getElem?]
  constructor
  · rintro ⟨q, found⟩
    rw [List.getElem?_drop, List.getElem?_take] at found
    split at found
    · next inside => exact ⟨_, Nat.le_add_right _ _, inside, found⟩
    · cases found
  · rintro ⟨p, low, high, found⟩
    refine ⟨p - start, ?_⟩
    rw [List.getElem?_drop, Nat.add_sub_cancel' low, List.getElem?_take, if_pos high, found]

/-- The loop over the positions keeps what is neither in the cut nor set aside. -/
theorem mem_outside (distinct : xs.Nodup) (start stop : Nat) (aside : α → Bool) (x : α) :
    x ∈ (xs.zipIdx.filter fun entry =>
        !(decide (start ≤ entry.2) && decide (entry.2 < stop)) && !aside entry.1).map Prod.fst ↔
      x ∈ xs ∧ x ∉ (xs.take stop).drop start ∧ aside x = false := by
  rw [mem_cut]
  simp only [List.mem_map, List.mem_filter, Prod.exists, exists_and_right, exists_eq_right,
    List.mem_zipIdx_iff_getElem?, Bool.and_eq_true, Bool.not_eq_true', Bool.and_eq_false_iff,
    decide_eq_false_iff_not]
  constructor
  · rintro ⟨p, found, outside, apart⟩
    refine ⟨List.mem_of_getElem? found, ?_, apart⟩
    rintro ⟨q, low, high, same⟩
    have held := (List.getElem?_eq_some_iff.mp found).1
    have position : p = q := (List.getElem?_inj held distinct).mp (found.trans same.symm)
    subst position
    exact outside.elim (fun below => below low) (fun above => above high)
  · rintro ⟨member, outside, apart⟩
    obtain ⟨p, found⟩ := List.mem_iff_getElem?.mp member
    refine ⟨p, found, ?_, apart⟩
    by_contra both
    rw [not_or, not_not, not_not] at both
    exact outside ⟨p, both.1, both.2, found⟩

/-- Cutting a list at the multiples of a width. -/
theorem flatMap_cuts (width : Nat) (xs : List α) (k : Nat) :
    (List.range k).flatMap (fun f => (xs.take ((f + 1) * width)).drop (f * width)) =
      xs.take (k * width) := by
  induction k with
  | zero => simp
  | succ k ih =>
    have shorter : k * width ≤ (k + 1) * width := Nat.mul_le_mul_right _ (Nat.le_succ k)
    have front : xs.take (k * width) = (xs.take ((k + 1) * width)).take (k * width) := by
      rw [List.take_take, Nat.min_eq_left shorter]
    rw [List.range_succ, List.flatMap_append, ih, List.flatMap_singleton, front,
      List.take_append_drop]

/-- Lists that agree in their whole blocks agree behind any number of them, as far as a whole
block is there. -/
theorem shared_rest {lhs rhs front rest : List α} {size count k : Nat} (positive : 0 < size)
    (left : lhs.length / size = count) (right : rhs.length / size = count)
    (same : lhs.take (count * size) = rhs.take (count * size)) (split : lhs = front ++ rest)
    (whole : front.length = k * size) :
    ∃ other, rhs = front ++ other ∧ (size ≤ other.length ↔ size ≤ rest.length) ∧
      (size ≤ rest.length → other.take size = rest.take size) := by
  have blocks : ∀ n, n * size ≤ lhs.length ↔ n ≤ count := by
    intro n
    rw [← left, Nat.le_div_iff_mul_le positive]
  have others : ∀ n, n * size ≤ rhs.length ↔ n ≤ count := by
    intro n
    rw [← right, Nat.le_div_iff_mul_le positive]
  have total : lhs.length = k * size + rest.length := by rw [split, List.length_append, whole]
  have fewer : k ≤ count := (blocks k).mp (by omega)
  have shorter : k * size ≤ count * size := Nat.mul_le_mul_right size fewer
  have shared : ∀ m, m ≤ count * size → lhs.take m = rhs.take m := by
    intro m small
    have cut := congrArg (List.take m) same
    rwa [List.take_take, List.take_take, Nat.min_eq_left small] at cut
  have begins : rhs.take (k * size) = front := by
    rw [← shared _ shorter, split, List.take_left' whole]
  have room := (others k).mpr fewer
  have further : size ≤ (rhs.drop (k * size)).length ↔ (k + 1) * size ≤ rhs.length := by
    rw [List.length_drop, Nat.succ_mul]
    omega
  refine ⟨rhs.drop (k * size), ?_, ?_, fun long => ?_⟩
  · rw [← begins, List.take_append_drop]
  · rw [further, others, ← blocks, total, Nat.succ_mul]
    omega
  · have more : k * size + size ≤ count * size := by
      rw [← Nat.succ_mul]
      exact Nat.mul_le_mul_right size ((blocks _).mp (by rw [Nat.succ_mul]; omega))
    have behind : lhs.drop (k * size) = rest := by rw [split, List.drop_left' whole]
    rw [← behind, List.take_drop, List.take_drop, shared _ more]

end ListBlocks
