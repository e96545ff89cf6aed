import Mathlib.Data.List.Induction
import Mathlib.Order.Lattice

/-! Scanning a list for its best element: a later element wins only if it is strictly
better, so of several best ones the scan keeps the first. -/
namespace FirstBest

variable {α κ : Type*} [LinearOrder κ] {key : α → κ} {xs : List α} {x best : α}

/-- The best element so far and one more. -/
def pick (key : α → κ) : Option α → α → Option α
  | none, x => some x
  | some best, x => if key best < key x then some x else some best

def scan (key : α → κ) (xs : List α) : Option α := xs.foldl (pick key) none

theorem scan_append (xs : List α) (x : α) : scan key (xs ++ [x]) = pick key (scan key xs) x := by
  simp only [scan, List.foldl_append, List.foldl_cons, List.foldl_nil]

/-- No element is better than `best`, and those before it are worse. -/
structure IsFirstBest (key : α → κ) (xs : List α) (best : α) : Prop where
  split : ∃ before after, xs = before ++ best :: after ∧ ∀ x ∈ before, key x < key best
  most : ∀ x ∈ xs, key x ≤ key best

theorem IsFirstBest.mem (first : IsFirstBest key xs best) : best ∈ xs := by
  obtain ⟨before, after, rfl, _⟩ := first.split
  simp

theorem scan_eq_none : scan key xs = none ↔ xs = [] := by
  constructor
  · intro none
    induction xs using List.reverseRecOn with
    | nil => rfl
    | append_singleton xs x ih =>
      rw [scan_append] at none
      cases earlier : scan key xs <;> simp only [earlier, pick] at none
      · cases none
      · split at none <;> cases none
  · rintro rfl
    rfl

theorem scan_isFirstBest (found : scan key xs = some best) : IsFirstBest key xs best := by
  induction xs using List.reverseRecOn generalizing best with
  | nil => cases found
  | append_singleton xs x ih =>
    rw [scan_append] at found
    cases earlier : scan key xs with
    | none =>
      have empty : xs = [] := scan_eq_none.mp earlier
      subst empty
      simp only [earlier, pick, Option.some.injEq] at found
      subst found
      exact ⟨⟨[], [], rfl, by simp⟩, by simp⟩
    | some old =>
      have first := ih earlier
      rw [earlier] at found
      simp only [pick] at found
      split at found
      · next better =>
        cases found
        refine ⟨⟨xs, [], rfl, fun y member => (first.most y member).trans_lt better⟩, ?_⟩
        intro y member
        rcases List.mem_append.mp member with old | last
        · exact ((first.most y old).trans_lt better).le
        · rw [List.mem_singleton.mp last]
      · next worse =>
        cases found
        obtain ⟨before, after, rfl, less⟩ := first.split
        refine ⟨⟨before, after ++ [x], by simp, less⟩, ?_⟩
        intro y member
        rcases List.mem_append.mp member with old | last
        · exact first.most y old
        · rw [List.mem_singleton.mp last]
          exact not_lt.mp worse

/-- In a sorted list, whatever comes before the first best element is worse. -/
theorem IsFirstBest.lt_of_earlier {r : α → α → Prop} (first : IsFirstBest key xs best)
    (sorted : xs.Pairwise r) (asymmetric : ∀ a b, r a b → ¬ r b a) (member : x ∈ xs)
    (earlier : r x best) : key x < key best := by
  obtain ⟨before, after, rfl, less⟩ := first.split
  rcases List.mem_append.mp member with front | back
  · exact less x front
  · rcases List.mem_cons.mp back with rfl | last
    · exact absurd earlier (asymmetric _ _ earlier)
    · have behind := (List.pairwise_cons.mp (List.pairwise_append.mp sorted).2.1).1 x last
      exact absurd earlier (asymmetric _ _ behind)

/-- The scan finds whatever is a first best element. -/
theorem IsFirstBest.scan_eq (first : IsFirstBest key xs best) : scan key xs = some best := by
  obtain ⟨⟨before, after, rfl, less⟩, most⟩ := first
  have reached : scan key (before ++ [best]) = some best := by
    rw [scan_append]
    cases earlier : scan key before with
    | none => rfl
    | some old => exact if_pos (less old (scan_isFirstBest earlier).mem)
  have kept : ∀ rest : List α, (∀ x ∈ rest, key x ≤ key best) →
      rest.foldl (pick key) (some best) = some best := by
    intro rest worse
    induction rest with
    | nil => rfl
    | cons x rest ih =>
      have here : pick key (some best) x = some best :=
        if_neg (not_lt.mpr (worse x List.mem_cons_self))
      rw [List.foldl_cons, here]
      exact ih fun y member => worse y (List.mem_cons_of_mem x member)
  rw [show before ++ best :: after = before ++ [best] ++ after by simp, scan, List.foldl_append,
    ← scan, reached]
  exact kept after fun x member => most x (by simp [member])

section Sorted

variable {β : Type*} {view : α → β}

/-- Of the elements with the greatest key, the first and the last look alike. -/
def TiesAgree (key : α → κ) (view : α → β) (xs : List α) : Prop :=
  ∀ before first between last, xs = before ++ first :: (between ++ [last]) →
    (∀ x ∈ before, key x < key last) → key first = key last → view first = view last

theorem le_last {last : α} (sorted : (xs ++ [last]).Pairwise fun a b => key a ≤ key b) :
    ∀ x ∈ xs ++ [last], key x ≤ key last := by
  intro x member
  rcases List.mem_append.mp member with earlier | here
  · exact (List.pairwise_append.mp sorted).2.2 x earlier last (List.mem_singleton_self last)
  · rw [List.mem_singleton.mp here]

/-- In a list sorted by the key the scan finds the last element, up to what is looked at,
exactly if ties agree. -/
theorem scan_eq_getLast?_iff (view : α → β) (sorted : xs.Pairwise fun a b => key a ≤ key b) :
    (scan key xs).map view = xs.getLast?.map view ↔ TiesAgree key view xs := by
  constructor
  · rintro found before first between last rfl less tie
    have ends : before ++ first :: (between ++ [last]) = (before ++ first :: between) ++ [last] := by
      simp
    have best : IsFirstBest key (before ++ first :: (between ++ [last])) first := by
      refine ⟨⟨before, between ++ [last], rfl, fun x member => tie ▸ less x member⟩, ?_⟩
      rw [ends] at sorted ⊢
      exact tie ▸ le_last sorted
    rw [best.scan_eq, ends, List.getLast?_concat] at found
    exact Option.some.inj found
  · intro agree
    cases scanned : scan key xs with
    | none =>
      rw [scan_eq_none.mp scanned]
      rfl
    | some best =>
      obtain ⟨⟨before, after, rfl, less⟩, most⟩ := scan_isFirstBest scanned
      rcases List.eq_nil_or_concat after with rfl | ⟨between, last, behind⟩
      · rw [List.getLast?_concat]
      · rw [List.concat_eq_append] at behind
        subst behind
        have ends : before ++ best :: (between ++ [last]) =
            (before ++ best :: between) ++ [last] := by simp
        have tie : key best = key last := by
          refine le_antisymm ?_ (most last (by simp))
          rw [ends] at sorted
          exact le_last sorted best (by simp)
        have alike := agree before best between last rfl (fun x member => tie ▸ less x member) tie
        rw [ends, List.getLast?_concat, Option.map_some, Option.map_some, alike]

end Sorted

end FirstBest
