import Mathlib.Data.List.Basic
import Mathlib.Order.Lattice

/-! A window that slides over a list sorted by a key. What is below its lower end is dropped
from the front, one element at a time; since the keys are sorted, that leaves exactly the
elements at or above the lower end, however often the window has moved. -/
namespace SlidingWindow

variable {α κ : Type*} [LinearOrder κ] {key : α → κ} {xs : List α} {x : α} {low next : κ}

/-- The elements from the lower end of the window on. -/
def window (key : α → κ) (low : κ) (xs : List α) : List α := xs.filter fun x => low ≤ key x

theorem drop_length_takeWhile (p : α → Bool) (xs : List α) :
    xs.drop (xs.takeWhile p).length = xs.dropWhile p := by
  calc xs.drop (xs.takeWhile p).length
      = (xs.takeWhile p ++ xs.dropWhile p).drop (xs.takeWhile p).length := by
        rw [List.takeWhile_append_dropWhile]
    _ = xs.dropWhile p := List.drop_left

theorem dropWhile_congr {p q : α → Bool} (same : ∀ x ∈ xs, p x = q x) :
    xs.dropWhile p = xs.dropWhile q := by
  induction xs with
  | nil => rfl
  | cons x rest ih =>
    rw [List.dropWhile_cons, List.dropWhile_cons, same x List.mem_cons_self,
      ih fun y member => same y (List.mem_cons_of_mem x member)]

theorem dropWhile_eq_window (sorted : xs.Pairwise fun a b => key a ≤ key b) (low : κ) :
    xs.dropWhile (fun x => key x < low) = window key low xs := by
  induction xs with
  | nil => rfl
  | cons x rest ih =>
    obtain ⟨first, others⟩ := List.pairwise_cons.mp sorted
    by_cases below : key x < low
    · have outside : ¬ low ≤ key x := not_le.mpr below
      simp only [window] at ih
      simp only [List.dropWhile_cons, below, decide_true, if_true, ih others, window,
        List.filter_cons, outside, decide_false, Bool.false_eq_true, if_false]
    · have inside : ∀ y ∈ x :: rest, low ≤ key y := by
        intro y member
        rcases List.mem_cons.mp member with rfl | later
        · exact not_lt.mp below
        · exact (not_lt.mp below).trans (first y later)
      simp only [List.dropWhile_cons, below, decide_false, Bool.false_eq_true, if_false]
      exact (List.filter_eq_self.mpr fun y member => decide_eq_true (inside y member)).symm

/-- One element enters at the end, and the lower end moves up. -/
theorem slide (sorted : (xs ++ [x]).Pairwise fun a b => key a ≤ key b) (up : low ≤ next) :
    (window key low xs ++ [x]).dropWhile (fun x => key x < next) = window key next (xs ++ [x]) := by
  have kept : (window key low xs ++ [x]).Sublist (xs ++ [x]) :=
    List.Sublist.append_right List.filter_sublist [x]
  rw [dropWhile_eq_window (sorted.sublist kept), window, window, window, List.filter_append,
    List.filter_append, List.filter_filter]
  congr 1
  apply List.filter_congr
  intro y _
  by_cases inside : next ≤ key y
  · simp [inside, up.trans inside]
  · simp [inside]

/-- The same for images of the elements, with a test of the images. -/
theorem slide_map {β : Type*} {f : α → β} {gone : β → Bool}
    (sorted : (xs ++ [x]).Pairwise fun a b => key a ≤ key b) (up : low ≤ next)
    (below : ∀ y ∈ xs ++ [x], gone (f y) = decide (key y < next)) :
    ((window key low xs).map f ++ [f x]).dropWhile gone = (window key next (xs ++ [x])).map f := by
  have tested : (window key low xs ++ [x]).dropWhile (gone ∘ f) =
      (window key low xs ++ [x]).dropWhile (fun x => key x < next) := by
    refine dropWhile_congr fun y member => below y ?_
    rw [List.mem_append] at member ⊢
    exact member.imp_left fun kept => List.mem_of_mem_filter kept
  rw [← List.map_singleton, ← List.map_append, List.dropWhile_map, tested, slide sorted up]

end SlidingWindow
