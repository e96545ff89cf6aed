import Mathlib.Algebra.BigOperators.Group.List.Basic
import Mathlib.Algebra.GroupWithZero.Nat
import Mathlib.Order.Lattice

/-! Sharing out a budget in order of priority: down a list of demands, each one is met as
far as the budget still goes, and the first one out of reach ends the round. -/
namespace PriorityAllocation

variable {α : Type*} {demand : α → Nat} {reach : α → Bool} {budget : Nat} {xs : List α}

/-- Every element with what it is given. -/
def allocate (demand : α → Nat) (reach : α → Bool) : List α → Nat → List (α × Nat)
  | [], _ => []
  | x :: rest, budget =>
    if budget = 0 ∨ reach x = false then (x :: rest).map (fun y => (y, 0))
    else (x, min (demand x) budget) :: allocate demand reach rest (budget - min (demand x) budget)

/-- What is asked for before the first element out of reach. -/
def asked (demand : α → Nat) (reach : α → Bool) (xs : List α) : Nat :=
  ((xs.takeWhile reach).map demand).sum

theorem map_fst_allocate (demand : α → Nat) (reach : α → Bool) (xs : List α) (budget : Nat) :
    (allocate demand reach xs budget).map Prod.fst = xs := by
  induction xs generalizing budget with
  | nil => rfl
  | cons x rest ih =>
    rw [allocate]
    split
    · rw [List.map_map]
      exact List.map_id _
    · rw [List.map_cons, ih]

theorem mem_of_allocate {p : α × Nat} (given : p ∈ allocate demand reach xs budget) : p.1 ∈ xs := by
  rw [← map_fst_allocate demand reach xs budget]
  exact List.mem_map_of_mem given

/-- Nothing is given beyond the demand, and nothing out of reach. -/
theorem allocate_bounds {p : α × Nat} (given : p ∈ allocate demand reach xs budget) :
    p.2 ≤ demand p.1 ∧ (0 < p.2 → reach p.1 = true) := by
  induction xs generalizing budget with
  | nil => cases given
  | cons x rest ih =>
    rw [allocate] at given
    split at given
    · obtain ⟨y, -, rfl⟩ := List.mem_map.mp given
      exact ⟨Nat.zero_le _, fun some => absurd some (lt_irrefl 0)⟩
    · next open_ =>
      rcases List.mem_cons.mp given with rfl | later
      · exact ⟨min_le_left _ _, fun _ => Bool.not_eq_false _ ▸ fun shut => open_ (Or.inr shut)⟩
      · exact ih later

theorem asked_near {x : α} (near : reach x = true) (rest : List α) :
    asked demand reach (x :: rest) = demand x + asked demand reach rest := by
  rw [asked, List.takeWhile_cons, near, if_pos rfl, List.map_cons, List.sum_cons, asked]

theorem asked_far {x : α} (far : reach x = false) (rest : List α) :
    asked demand reach (x :: rest) = 0 := by
  rw [asked, List.takeWhile_cons, far, if_neg Bool.false_ne_true, List.map_nil, List.sum_nil]

/-- The budget is used up as far as anything within reach is asked for. -/
theorem sum_allocate (xs : List α) (budget : Nat) :
    ((allocate demand reach xs budget).map Prod.snd).sum = min budget (asked demand reach xs) := by
  induction xs generalizing budget with
  | nil => simp [allocate, asked]
  | cons x rest ih =>
    rw [allocate]
    split
    · next shut =>
      have zeros : (((x :: rest).map (fun y => (y, 0))).map Prod.snd).sum = 0 := by
        rw [List.map_map]
        exact List.sum_eq_zero (fun n member => by
          obtain ⟨_, -, rfl⟩ := List.mem_map.mp member
          rfl)
      rw [zeros]
      rcases shut with spent | far
      · rw [spent, Nat.zero_min]
      · rw [asked_far far, Nat.min_zero]
    · next open_ =>
      have near : reach x = true := Bool.eq_true_of_not_eq_false (fun far => open_ (Or.inr far))
      rw [List.map_cons, List.sum_cons, ih, asked_near near]
      omega

theorem allocate_spent {p : α × Nat} (given : p ∈ allocate demand reach xs 0) : p.2 = 0 := by
  cases xs with
  | nil => cases given
  | cons x rest =>
    rw [allocate, if_pos (Or.inl rfl)] at given
    obtain ⟨_, -, rfl⟩ := List.mem_map.mp given
    rfl

/-- Nothing is given to an element while one before it is left wanting. -/
theorem allocate_priority (demand : α → Nat) (reach : α → Bool) (xs : List α) (budget : Nat) :
    (allocate demand reach xs budget).Pairwise (fun p q => 0 < q.2 → p.2 = demand p.1) := by
  induction xs generalizing budget with
  | nil => exact List.Pairwise.nil
  | cons x rest ih =>
    rw [allocate]
    split
    · rw [List.pairwise_map]
      exact List.pairwise_of_forall (fun _ _ some => absurd some (lt_irrefl 0))
    · refine List.Pairwise.cons (fun q later some => ?_) (ih _)
      rcases Nat.le_total (demand x) budget with met | short
      · exact min_eq_left met
      · rw [min_eq_right short, Nat.sub_self] at later
        exact absurd (allocate_spent later) (Nat.pos_iff_ne_zero.mp some)

/-- Where nothing within reach stands behind what is out of reach, all that is within reach
is asked for. -/
theorem asked_eq_filter (closed : xs.Pairwise (fun x y => reach y = true → reach x = true)) :
    asked demand reach xs = ((xs.filter reach).map demand).sum := by
  induction xs with
  | nil => rfl
  | cons x rest ih =>
    obtain ⟨front, later⟩ := List.pairwise_cons.mp closed
    cases near : reach x with
    | true =>
      rw [asked_near near, ih later, List.filter_cons_of_pos near, List.map_cons, List.sum_cons]
    | false =>
      have none : rest.filter reach = [] := List.filter_eq_nil_iff.mpr fun y member reached =>
        Bool.false_ne_true (near ▸ front y member reached)
      rw [asked_far near, List.filter_cons_of_neg (by rw [near]; exact Bool.false_ne_true), none]
      rfl

/-- Two elements of a list stand in one order or the other. -/
theorem pairwise_or {R : α → α → Prop} (held : xs.Pairwise R) {x y : α} (first : x ∈ xs)
    (second : y ∈ xs) : x = y ∨ R x y ∨ R y x := by
  induction held with
  | nil => cases first
  | cons front _ ih =>
    rcases List.mem_cons.mp first with rfl | early <;>
      rcases List.mem_cons.mp second with rfl | late
    · exact Or.inl rfl
    · exact Or.inr (Or.inl (front _ late))
    · exact Or.inr (Or.inr (front _ early))
    · exact ih early late

end PriorityAllocation
