import Mathlib.Data.Fintype.Card
import Mathlib.Logic.Function.Basic

/-! A ring of cells that remembers which numbers have been seen, each number in
the cell of its residue and zero standing for an empty cell. The placement of
every tag is a field. `Holds` is the set of remembered numbers; the operations
are described by what they do to that set. -/

structure TagRing where
  size : Nat
  size_pos : 0 < size
  tag : Fin size → Nat
  placed : ∀ i, tag i ≠ 0 → tag i % size = i.val

namespace TagRing

variable {r r' : TagRing} {x y : Nat}

def slot (r : TagRing) (x : Nat) : Fin r.size := ⟨x % r.size, Nat.mod_lt _ r.size_pos⟩

def cleared (size : Nat) (size_pos : 0 < size) : TagRing :=
  ⟨size, size_pos, fun _ => 0, fun _ h => absurd rfl h⟩

def mark (r : TagRing) (x : Nat) : TagRing where
  size := r.size
  size_pos := r.size_pos
  tag := Function.update r.tag (r.slot x) x
  placed := by
    intro i
    by_cases same : i = r.slot x
    · subst same
      simp [slot]
    · simpa [Function.update_of_ne same] using r.placed i

def unmark (r : TagRing) (x : Nat) : TagRing where
  size := r.size
  size_pos := r.size_pos
  tag := Function.update r.tag (r.slot x) 0
  placed := by
    intro i
    by_cases same : i = r.slot x
    · subst same
      simp
    · simpa [Function.update_of_ne same] using r.placed i

/-- Take `x` out of its cell; `none` when the cell holds something else. -/
def pop? (r : TagRing) (x : Nat) : Option TagRing :=
  if r.tag (r.slot x) = x then some (r.unmark x) else none

def discard (r : TagRing) (x : Nat) : TagRing := (r.pop? x).getD r

def Holds (r : TagRing) (x : Nat) : Prop := x ≠ 0 ∧ r.tag (r.slot x) = x

instance (r : TagRing) (x : Nat) : Decidable (r.Holds x) := inferInstanceAs (Decidable (_ ∧ _))

/-- The remembered numbers are exactly the nonzero cell contents. -/
theorem holds_iff_exists : r.Holds x ↔ x ≠ 0 ∧ ∃ i, r.tag i = x := by
  constructor
  · rintro ⟨nonzero, same⟩
    exact ⟨nonzero, r.slot x, same⟩
  · rintro ⟨nonzero, i, rfl⟩
    have place : r.slot (r.tag i) = i := Fin.ext (r.placed i nonzero)
    exact ⟨nonzero, by rw [place]⟩

@[simp] theorem holds_cleared {size : Nat} {pos : 0 < size} : ¬ (cleared size pos).Holds x := by
  rintro ⟨nonzero, same⟩
  exact nonzero same.symm

theorem size_pop (popped : r.pop? x = some r') : r'.size = r.size := by
  simp only [pop?] at popped
  split at popped
  · cases popped
    rfl
  · contradiction

@[simp] theorem size_discard : (r.discard x).size = r.size := by
  simp only [discard]
  cases popped : r.pop? x with
  | none => rfl
  | some r' => exact size_pop popped

theorem slot_eq_iff : r.slot y = r.slot x ↔ y % r.size = x % r.size := Fin.ext_iff

/-- Marking keeps every number of another residue and evicts the old cell content. -/
theorem holds_mark (nonzero : x ≠ 0) :
    (r.mark x).Holds y ↔ y = x ∨ (y % r.size ≠ x % r.size ∧ r.Holds y) := by
  have cell : (r.mark x).tag ((r.mark x).slot y) =
      Function.update r.tag (r.slot x) x (r.slot y) := rfl
  simp only [Holds, cell]
  by_cases same : r.slot y = r.slot x
  · rw [same, Function.update_self]
    simp only [slot_eq_iff] at same
    simp only [same, ne_eq, not_true_eq_false, false_and, or_false]
    exact ⟨fun h => h.2.symm, fun h => ⟨h ▸ nonzero, h.symm⟩⟩
  · rw [Function.update_of_ne same]
    have residue : y % r.size ≠ x % r.size := fun h => same (slot_eq_iff.mpr h)
    have distinct : y ≠ x := fun h => residue (by rw [h])
    simp [residue, distinct]

/-- A successful pop removes exactly that number. -/
theorem holds_pop (popped : r.pop? x = some r') : r'.Holds y ↔ r.Holds y ∧ y ≠ x := by
  simp only [pop?] at popped
  split at popped
  · next stored =>
    cases popped
    have cell : (r.unmark x).tag ((r.unmark x).slot y) =
        Function.update r.tag (r.slot x) 0 (r.slot y) := rfl
    simp only [Holds, cell]
    by_cases same : r.slot y = r.slot x
    · rw [same, Function.update_self, stored]
      constructor
      · rintro ⟨nonzero, zero⟩
        exact absurd zero.symm nonzero
      · rintro ⟨⟨_, h⟩, distinct⟩
        exact absurd h.symm distinct
    · rw [Function.update_of_ne same]
      have distinct : y ≠ x := fun h => same (by rw [h])
      simp [distinct]
  · contradiction

theorem holds_of_pop (popped : r.pop? x = some r') (nonzero : x ≠ 0) : r.Holds x := by
  simp only [pop?] at popped
  split at popped
  · next stored => exact ⟨nonzero, stored⟩
  · contradiction

theorem not_holds_of_pop (stuck : r.pop? x = none) : ¬ r.Holds x := by
  simp only [pop?] at stuck
  split at stuck
  · contradiction
  · next other => exact fun holds => other holds.2

theorem pop_none (missing : ¬ r.Holds x) (nonzero : x ≠ 0) : r.pop? x = none := by
  simp only [pop?]
  rw [if_neg]
  exact fun stored => missing ⟨nonzero, stored⟩

theorem holds_discard : (r.discard x).Holds y ↔ r.Holds y ∧ y ≠ x := by
  simp only [discard]
  cases popped : r.pop? x with
  | some r' => exact holds_pop popped
  | none =>
    have missing := not_holds_of_pop popped
    simp only [Option.getD_none]
    exact ⟨fun h => ⟨h, fun same => missing (same ▸ h)⟩, fun h => h.1⟩

theorem holds_foldl_discard (xs : List Nat) (r : TagRing) :
    (xs.foldl discard r).Holds y ↔ r.Holds y ∧ y ∉ xs := by
  induction xs generalizing r with
  | nil => simp
  | cons x rest ih =>
    simp only [List.foldl_cons, ih, holds_discard, List.mem_cons, not_or, and_assoc]

@[simp] theorem size_foldl_discard (xs : List Nat) (r : TagRing) :
    (xs.foldl discard r).size = r.size := by
  induction xs generalizing r with
  | nil => rfl
  | cons x rest ih => simp [ih]

/-- Two remembered candidates inside one span shorter than the ring agree as
soon as their residues do. -/
theorem eq_of_residue {low width : Nat} (narrow : width < r.size)
    (xl : low < x) (xh : x ≤ low + width) (yl : low < y) (yh : y ≤ low + width)
    (same : y % r.size = x % r.size) : y = x := by
  have dx := Nat.div_add_mod x r.size
  have dy := Nat.div_add_mod y r.size
  rcases Nat.lt_trichotomy (y / r.size) (x / r.size) with less | equal | more
  · have gap : r.size * (y / r.size + 1) ≤ r.size * (x / r.size) := Nat.mul_le_mul_left _ less
    rw [Nat.mul_add] at gap
    omega
  · rw [equal] at dy
    omega
  · have gap : r.size * (x / r.size + 1) ≤ r.size * (y / r.size) := Nat.mul_le_mul_left _ more
    rw [Nat.mul_add] at gap
    omega

/-- Marking evicts no tag that lies with the new one in a span shorter than the ring. -/
theorem holds_mark_near {low width : Nat} (narrow : width < r.size) (above : low < x)
    (within : x ≤ low + width) (near : r.Holds y → low < y ∧ y ≤ low + width) :
    (r.mark x).Holds y ↔ y = x ∨ r.Holds y := by
  rw [holds_mark (by omega)]
  constructor
  · rintro (same | ⟨_, held⟩)
    · exact Or.inl same
    · exact Or.inr held
  · rintro (same | held)
    · exact Or.inl same
    · by_cases residue : y % r.size = x % r.size
      · obtain ⟨yl, yh⟩ := near held
        exact Or.inl (eq_of_residue narrow above within yl yh residue)
      · exact Or.inr ⟨residue, held⟩

/-- Number of nonempty cells. -/
def occupied (r : TagRing) : Nat := (Finset.univ.filter (fun i => r.tag i ≠ 0)).card

theorem occupied_le (r : TagRing) : r.occupied ≤ r.size := by
  simpa [occupied] using Finset.card_filter_le (Finset.univ : Finset (Fin r.size)) _

theorem occupied_unmark (r : TagRing) (x : Nat) :
    (r.unmark x).occupied = (Finset.univ.filter (fun i => r.tag i ≠ 0) |>.erase (r.slot x)).card := by
  change (Finset.univ.filter
    (fun i => Function.update r.tag (r.slot x) 0 i ≠ 0)).card = _
  congr 1
  ext i
  by_cases same : i = r.slot x
  · simp [same]
  · simp [same]

theorem occupied_pop (popped : r.pop? x = some r') (nonzero : x ≠ 0) :
    r'.occupied + 1 = r.occupied := by
  have held := holds_of_pop popped nonzero
  simp only [pop?] at popped
  rw [if_pos held.2] at popped
  cases popped
  rw [occupied_unmark]
  apply Finset.card_erase_add_one
  simp [held.2, nonzero]

theorem occupied_pop_le (popped : r.pop? x = some r') : r'.occupied ≤ r.occupied := by
  simp only [pop?] at popped
  split at popped
  · cases popped
    rw [occupied_unmark]
    exact Finset.card_erase_le
  · contradiction

/-- Pop `n`, `n + 1`, ... modulo `word` while they are there. Returns the number
that was missing, how many were popped and the remaining ring. -/
def popRun (word : Nat) : Nat → Nat → TagRing → Nat × Nat × TagRing
  | 0, n, r => (n, 0, r)
  | fuel + 1, n, r =>
    match r.pop? n with
    | none => (n, 0, r)
    | some r' =>
      let rest := popRun word fuel ((n + 1) % word) r'
      (rest.1, rest.2.1 + 1, rest.2.2)

/-- Fuel that always suffices: every pop empties a cell, except that zero is
read out of an empty cell at most once between two such pops. -/
def popFuel (r : TagRing) : Nat := 2 * r.size + 2

theorem popRun_stuck {word fuel n : Nat} (stuck : r.pop? n = none) :
    popRun word fuel n r = (n, 0, r) := by
  cases fuel with
  | zero => rfl
  | succ fuel => simp only [popRun, stuck]

/-- Every cell is empty. -/
def Clear (r : TagRing) : Prop := ∀ i, r.tag i = 0

theorem Clear.not_holds (clear : r.Clear) : ¬ r.Holds x := by
  rintro ⟨nonzero, stored⟩
  exact nonzero (stored.symm.trans (clear _))

/-- Nothing is marked by popping from an empty ring. -/
theorem Clear.popRun {word : Nat} (fuel n : Nat) {r : TagRing} (clear : r.Clear) :
    (popRun word fuel n r).2.2.Clear := by
  induction fuel generalizing n r with
  | zero => exact clear
  | succ fuel ih =>
    simp only [TagRing.popRun]
    cases popped : r.pop? n with
    | none => exact clear
    | some r' =>
      apply ih
      simp only [pop?] at popped
      split at popped
      · cases popped
        intro i
        simp only [unmark]
        by_cases same : i = r.slot n
        · subst same
          exact Function.update_self ..
        · exact (Function.update_of_ne same _ _).trans (clear i)
      · contradiction

theorem popRun_exhausts {word : Nat} (large : 1 < word) (fuel n : Nat) (r : TagRing)
    (enough : 2 * r.occupied + (if n = 0 then 1 else 0) < fuel) :
    (popRun word fuel n r).2.2.pop? (popRun word fuel n r).1 = none := by
  induction fuel generalizing n r with
  | zero => omega
  | succ fuel ih =>
    simp only [popRun]
    cases popped : r.pop? n with
    | none => exact popped
    | some r' =>
      apply ih
      by_cases zero : n = 0
      · subst zero
        have fewer := occupied_pop_le popped
        simp only [if_true] at enough
        rw [if_neg (by rw [Nat.mod_eq_of_lt (by omega)]; omega)]
        omega
      · have fewer := occupied_pop popped zero
        simp only [zero, if_false] at enough
        split <;> omega

/-- Below the wrap point the run pops an interval and leaves everything else. -/
theorem popRun_spec {word : Nat} (fuel n : Nat) (r : TagRing) (positive : 0 < n)
    (top : ∀ x, r.Holds x → x + 1 < word) :
    (popRun word fuel n r).1 = n + (popRun word fuel n r).2.1 ∧
    (∀ k, n ≤ k → k < (popRun word fuel n r).1 → r.Holds k) ∧
    (∀ k, (popRun word fuel n r).2.2.Holds k ↔
      r.Holds k ∧ ¬ (n ≤ k ∧ k < (popRun word fuel n r).1)) ∧
    (popRun word fuel n r).2.2.size = r.size := by
  induction fuel generalizing n r with
  | zero =>
    refine ⟨rfl, ?_, ?_, rfl⟩
    · intro k low high
      simp only [popRun] at high
      omega
    · intro k
      simp only [popRun]
      constructor
      · exact fun h => ⟨h, by omega⟩
      · exact fun h => h.1
  | succ fuel ih =>
    simp only [popRun]
    cases popped : r.pop? n with
    | none =>
      refine ⟨rfl, ?_, ?_, rfl⟩
      · intro k low high
        simp only at high
        omega
      · intro k
        constructor
        · exact fun h => ⟨h, by simp only; omega⟩
        · exact fun h => h.1
    | some r' =>
      have held := holds_of_pop popped (by omega)
      have noWrap : (n + 1) % word = n + 1 := Nat.mod_eq_of_lt (top n held)
      have top' : ∀ x, r'.Holds x → x + 1 < word := fun x h => top x ((holds_pop popped).mp h).1
      obtain ⟨count, between, remaining, sameSize⟩ := ih (n + 1) r' (by omega) top'
      simp only [noWrap]
      refine ⟨by omega, ?_, ?_, sameSize.trans (size_pop popped)⟩
      · intro k low high
        rcases Nat.eq_or_lt_of_le low with rfl | above
        · exact held
        · exact ((holds_pop popped).mp (between k above high)).1
      · intro k
        rw [remaining k, holds_pop popped]
        constructor
        · rintro ⟨⟨h, distinct⟩, outside⟩
          exact ⟨h, by omega⟩
        · rintro ⟨h, outside⟩
          exact ⟨⟨h, by omega⟩, by omega⟩

/-- No run passes a missing number, not even one that wraps around. -/
theorem popRun_le {k : Nat} (word fuel n : Nat) (r : TagRing) (nonzero : k ≠ 0)
    (missing : ¬ r.Holds k) (start : n ≤ k) :
    (popRun word fuel n r).1 ≤ k ∧ ¬ (popRun word fuel n r).2.2.Holds k := by
  induction fuel generalizing n r with
  | zero => exact ⟨start, missing⟩
  | succ fuel ih =>
    simp only [popRun]
    cases popped : r.pop? n with
    | none => exact ⟨start, missing⟩
    | some r' =>
      have below : n < k := by
        apply Nat.lt_of_le_of_ne start
        rintro rfl
        exact missing (holds_of_pop popped nonzero)
      apply ih
      · exact fun held => missing ((holds_pop popped).mp held).1
      · exact (Nat.mod_le _ _).trans below

/-- With the fuel of `popFuel` the run stops at the first missing number. -/
theorem popRun_stops {word : Nat} (large : 1 < word) {n : Nat} (positive : 0 < n)
    (top : ∀ x, r.Holds x → x + 1 < word) :
    ¬ r.Holds (popRun word r.popFuel n r).1 := by
  obtain ⟨_, _, remaining, _⟩ := popRun_spec r.popFuel n r positive top
  have stuck : (popRun word r.popFuel n r).2.2.pop? (popRun word r.popFuel n r).1 = none := by
    apply popRun_exhausts large
    have := r.occupied_le
    rw [if_neg (by omega), popFuel]
    omega
  intro held
  exact not_holds_of_pop stuck ((remaining _).mpr ⟨held, by omega⟩)

end TagRing
