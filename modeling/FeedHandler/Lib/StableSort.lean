import FeedHandler.Lib.FirstBest
import Mathlib.Data.List.Sort

/-! Stable sorting by a key. The first match in the sorted list is the match with the least
key that comes first in the original order, and equal keys keep their order. -/
namespace StableSort

variable {α κ : Type*} [LinearOrder κ]

def sortBy (key : α → κ) (xs : List α) : List α := xs.mergeSort fun a b => decide (key a ≤ key b)

section Order

variable {key : α → κ} {xs : List α} {p : α → Bool}

@[simp] theorem mem_sortBy {key : α → κ} {x : α} : x ∈ sortBy key xs ↔ x ∈ xs := List.mem_mergeSort

theorem sortBy_perm (key : α → κ) (xs : List α) : (sortBy key xs).Perm xs := List.mergeSort_perm _ _

theorem le_trans_decide (key : α → κ) (a b c : α) (left : decide (key a ≤ key b) = true)
    (right : decide (key b ≤ key c) = true) : decide (key a ≤ key c) = true :=
  decide_eq_true ((of_decide_eq_true left).trans (of_decide_eq_true right))

theorem le_total_decide (key : α → κ) (a b : α) :
    (decide (key a ≤ key b) || decide (key b ≤ key a)) = true := by
  simpa using le_total (key a) (key b)

theorem sortBy_sorted (key : α → κ) (xs : List α) :
    (sortBy key xs).Pairwise fun a b => key a ≤ key b :=
  (List.pairwise_mergeSort (le_trans_decide key) (le_total_decide key) xs).imp of_decide_eq_true

/-- Sorting the images is taking the images of the sorted list. -/
theorem map_sortBy {β : Type*} (f : β → α) (ys : List β) :
    (sortBy (key ∘ f) ys).map f = sortBy key (ys.map f) :=
  List.map_mergeSort fun _ _ _ _ => rfl

/-- Where one element is sorted in, the others keep their places; those in front of it have
lesser keys. -/
theorem sortBy_cons (key : α → κ) (a : α) (xs : List α) :
    ∃ front back, sortBy key (a :: xs) = front ++ a :: back ∧ sortBy key xs = front ++ back ∧
      ∀ b ∈ front, key b < key a := by
  obtain ⟨front, back, whole, rest, less⟩ :=
    List.mergeSort_cons (le_trans_decide key) (le_total_decide key) a xs
  exact ⟨front, back, whole, rest, fun b member => by simpa using less b member⟩

/-- Equal keys keep whatever order the list has. -/
theorem sortBy_stable (key : α → κ) {r : α → α → Prop} (ordered : xs.Pairwise r) :
    (sortBy key xs).Pairwise fun a b => key a < key b ∨ key a = key b ∧ r a b := by
  induction xs with
  | nil => simp [sortBy]
  | cons a xs ih =>
    obtain ⟨front, back, whole, rest, less⟩ := sortBy_cons key a xs
    obtain ⟨first, later⟩ := List.pairwise_cons.mp ordered
    have sorted := sortBy_sorted key (a :: xs)
    have earlier := ih later
    have held : ∀ b ∈ back, b ∈ xs := fun b member => by
      have inside : b ∈ sortBy key xs := rest ▸ List.mem_append_right front member
      exact mem_sortBy.mp inside
    rw [whole] at sorted ⊢
    rw [rest] at earlier
    obtain ⟨fronts, backs, across⟩ := List.pairwise_append.mp earlier
    refine List.pairwise_append.mpr ⟨fronts, List.pairwise_cons.mpr ⟨?_, backs⟩, ?_⟩
    · intro b member
      have above := (List.pairwise_cons.mp (List.pairwise_append.mp sorted).2.1).1 b member
      exact above.lt_or_eq.imp id fun tie => ⟨tie, first b (held b member)⟩
    · intro b ahead c behind
      rcases List.mem_cons.mp behind with rfl | beyond
      · exact .inl (less b ahead)
      · exact across b ahead c beyond

end Order

section Strict

variable {key : α → κ} {xs : List α} {p : α → Bool} {x : α}

/-- Behind an element of a strictly sorted list are those with greater keys. -/
theorem drop_eq_filter (sorted : xs.Pairwise fun a b => key a < key b) {k : Nat}
    (here : xs[k]? = some x) : xs.drop (k + 1) = xs.filter fun y => decide (key x < key y) := by
  have whole : xs = xs.take k ++ x :: xs.drop (k + 1) := by
    obtain ⟨inside, rfl⟩ := List.getElem?_eq_some_iff.mp here
    rw [List.getElem_cons_drop, List.take_append_drop]
  rw [whole, List.pairwise_append] at sorted
  obtain ⟨-, back, across⟩ := sorted
  have front : (xs.take k).filter (fun y => decide (key x < key y)) = [] := by
    rw [List.filter_eq_nil_iff]
    intro y ahead
    rw [decide_eq_true_eq]
    exact (across y ahead x List.mem_cons_self).asymm
  have behind : (xs.drop (k + 1)).filter (fun y => decide (key x < key y)) = xs.drop (k + 1) := by
    rw [List.filter_eq_self]
    exact fun y member => decide_eq_true ((List.pairwise_cons.mp back).1 y member)
  conv_rhs => rw [whole]
  rw [List.filter_append, front, List.nil_append, List.filter_cons_of_neg (by simp), behind]

/-- In a strictly sorted list the first match is the one with the least key. -/
theorem find?_eq_some_iff (sorted : xs.Pairwise fun a b => key a < key b) :
    xs.find? p = some x ↔ x ∈ xs ∧ p x = true ∧ ∀ y ∈ xs, p y = true → key x ≤ key y := by
  constructor
  · intro found
    obtain ⟨matched, front, back, rfl, unmatched⟩ := List.find?_eq_some_iff_append.mp found
    refine ⟨by simp, matched, fun y member ok => ?_⟩
    rcases List.mem_append.mp member with ahead | behind
    · exact absurd ok (by simpa using unmatched y ahead)
    · rcases List.mem_cons.mp behind with rfl | beyond
      · exact le_rfl
      · exact ((List.pairwise_cons.mp (List.pairwise_append.mp sorted).2.1).1 y beyond).le
  · rintro ⟨member, matched, least⟩
    obtain ⟨front, back, rfl⟩ := List.append_of_mem member
    refine List.find?_eq_some_iff_append.mpr ⟨matched, front, back, rfl, fun y ahead => ?_⟩
    have lower := (List.pairwise_append.mp sorted).2.2 y ahead x List.mem_cons_self
    by_contra ok
    exact absurd (least y (List.mem_append_left _ ahead) (by simpa using ok)) (not_le.mpr lower)

end Strict

section First

variable {key : α → κ} {xs : List α} {p : α → Bool}

/-- The element with the least key, the first of several. -/
def earliest (key : α → κ) (xs : List α) : Option α :=
  FirstBest.scan (fun x => OrderDual.toDual (key x)) xs

theorem earliest_cons (key : α → κ) (a : α) (xs : List α) :
    earliest key (a :: xs) = match earliest key xs with
      | none => some a
      | some b => if key b < key a then some b else some a := by
  cases found : earliest key xs with
  | none =>
    rw [FirstBest.scan_eq_none.mp found]
    rfl
  | some b =>
    obtain ⟨⟨before, after, rfl, less⟩, most⟩ := FirstBest.scan_isFirstBest found
    by_cases better : key b < key a
    · simp only [better, if_true]
      refine FirstBest.IsFirstBest.scan_eq ⟨⟨a :: before, after, rfl, ?_⟩, ?_⟩
      · exact List.forall_mem_cons.mpr ⟨better, less⟩
      · exact List.forall_mem_cons.mpr ⟨better.le, most⟩
    · simp only [better, if_false]
      refine FirstBest.IsFirstBest.scan_eq ⟨⟨[], _, rfl, by simp⟩, ?_⟩
      exact List.forall_mem_cons.mpr ⟨le_rfl, fun x member => (not_lt.mp better).trans (most x member)⟩

/-- Searching the sorted list finds the earliest of the matches. -/
theorem find?_sortBy (key : α → κ) (p : α → Bool) (xs : List α) :
    (sortBy key xs).find? p = earliest key (xs.filter p) := by
  induction xs with
  | nil => simp [sortBy, earliest, FirstBest.scan]
  | cons a xs ih =>
    obtain ⟨front, back, whole, rest, less⟩ := sortBy_cons key a xs
    rw [rest, List.find?_append] at ih
    rw [whole, List.find?_append, List.find?_cons]
    cases matched : p a with
    | false => rw [List.filter_cons_of_neg (by simp [matched]), ← ih]
    | true =>
      rw [List.filter_cons_of_pos matched, earliest_cons, ← ih]
      cases ahead : front.find? p with
      | some b =>
        have lower : key b < key a := less b (List.mem_of_find?_eq_some ahead)
        simp [lower]
      | none =>
        cases behind : back.find? p with
        | none => rfl
        | some b =>
          have sorted := sortBy_sorted key (a :: xs)
          rw [whole] at sorted
          have above : key a ≤ key b := (List.pairwise_cons.mp (List.pairwise_append.mp sorted).2.1).1
            b (List.mem_of_find?_eq_some behind)
          simp [not_lt.mpr above]

/-- Among equal keys the earliest element is the first one. -/
theorem earliest_of_tied {k : κ} (tied : ∀ x ∈ xs, key x = k) : earliest key xs = xs.head? := by
  cases xs with
  | nil => rfl
  | cons a rest =>
    refine FirstBest.IsFirstBest.scan_eq ⟨⟨[], rest, rfl, by simp⟩, fun x member => ?_⟩
    exact le_of_eq (congrArg OrderDual.toDual ((tied x member).trans (tied a List.mem_cons_self).symm))

/-- Only the order of the keys matters. -/
theorem earliest_congr {κ' : Type*} [LinearOrder κ'] {key' : α → κ'}
    (same : ∀ x ∈ xs, ∀ y ∈ xs, key x < key y ↔ key' x < key' y) :
    earliest key xs = earliest key' xs := by
  cases found : earliest key' xs with
  | none =>
    rw [FirstBest.scan_eq_none.mp found]
    rfl
  | some b =>
    have first := FirstBest.scan_isFirstBest found
    have member : b ∈ xs := first.mem
    obtain ⟨⟨before, after, rfl, less⟩, most⟩ := first
    refine FirstBest.IsFirstBest.scan_eq ⟨⟨before, after, rfl, fun x held => ?_⟩, fun x held => ?_⟩
    · exact (same b member x (by simp [held])).mpr (less x held)
    · exact not_lt.mp fun lower => absurd ((same x held b member).mp lower) (not_lt.mpr (most x held))

theorem map_earliest {β : Type*} (f : β → α) (ys : List β) :
    (earliest (key ∘ f) ys).map f = earliest key (ys.map f) := by
  cases found : earliest (key ∘ f) ys with
  | none =>
    rw [FirstBest.scan_eq_none.mp found]
    rfl
  | some b =>
    obtain ⟨⟨before, after, rfl, less⟩, most⟩ := FirstBest.scan_isFirstBest found
    refine (FirstBest.IsFirstBest.scan_eq ⟨⟨before.map f, after.map f, by simp, ?_⟩, ?_⟩).symm
    · exact List.forall_mem_map.mpr less
    · exact List.forall_mem_map.mpr most

end First

end StableSort
