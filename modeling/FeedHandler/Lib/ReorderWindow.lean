import Mathlib.Order.ConditionallyCompleteLattice.Basic
import Mathlib.Order.Lattice.Nat

/-! What a reorder buffer is for. The state is the next number wanted and the set
of later numbers already received, which never leaves a window of fixed width. An
arrival of the next number releases the longest run that starts with it; the end
of that run is the least later number not received. -/

structure ReorderWindow where
  width : Nat
  next : Nat
  received : Set Nat
  inside : ∀ x ∈ received, next < x ∧ x ≤ next + width

namespace ReorderWindow

/-- What an arrival is told. Ranges are closed. -/
inductive Answer where
  | old
  | released (count runEnd : Nat)
  | buffered (firstMissing lastMissing : Nat)
  | tooFar (firstMissing lastMissing : Nat)

variable {w : ReorderWindow} {n x : Nat}

def initial (width first : Nat) : ReorderWindow where
  width := width
  next := first
  received := ∅
  inside := fun _ none => none.elim

/-- The least number after the next one that has not been received. -/
noncomputable def runEnd (w : ReorderWindow) : Nat := sInf {k | w.next < k ∧ k ∉ w.received}

/-- Move the window up to `n`, never down, and forget what is not above it. -/
def advanceTo (w : ReorderWindow) (n : Nat) : ReorderWindow where
  width := w.width
  next := max w.next n
  received := {x | x ∈ w.received ∧ max w.next n < x}
  inside := by
    rintro x ⟨old, above⟩
    have := (w.inside x old).2
    omega

def buffer (w : ReorderWindow) (x : Nat) (above : w.next < x) (near : x ≤ w.next + w.width) :
    ReorderWindow where
  width := w.width
  next := w.next
  received := insert x w.received
  inside := by
    rintro y (rfl | old)
    · exact ⟨above, near⟩
    · exact w.inside y old

/-- One arrival. Zero is no number of the stream. -/
noncomputable def accept (w : ReorderWindow) (x : Nat) : ReorderWindow × Answer :=
  if x = 0 ∨ x < w.next then (w, .old)
  else if x = w.next then (w.advanceTo w.runEnd, .released (w.runEnd - w.next) w.runEnd)
  else if near : w.next < x ∧ x ≤ w.next + w.width then
    (w.buffer x near.1 near.2, .buffered w.next (x - 1))
  else (w, .tooFar w.next (x - 1))

theorem runEnd_exists (w : ReorderWindow) : ∃ k, w.next < k ∧ k ∉ w.received := by
  refine ⟨w.next + w.width + 1, by omega, ?_⟩
  intro member
  have := (w.inside _ member).2
  omega

/-- The run ends at the first missing number, and nowhere else. -/
theorem runEnd_iff : w.runEnd = n ↔
    w.next < n ∧ n ∉ w.received ∧ ∀ k, w.next < k → k < n → k ∈ w.received := by
  have least := Nat.sInf_mem w.runEnd_exists
  constructor
  · rintro rfl
    refine ⟨least.1, least.2, ?_⟩
    intro k low high
    by_contra missing
    exact Nat.notMem_of_lt_sInf high ⟨low, missing⟩
  · rintro ⟨low, missing, between⟩
    refine Nat.le_antisymm ?_ ?_
    · exact Nat.sInf_le ⟨low, missing⟩
    by_contra short
    exact least.2 (between _ least.1 (Nat.not_le.mp short))

theorem accept_old (old : x = 0 ∨ x < w.next) : w.accept x = (w, .old) := if_pos old

theorem accept_next (positive : 0 < w.next) : w.accept w.next =
    (w.advanceTo w.runEnd, .released (w.runEnd - w.next) w.runEnd) := by
  rw [accept, if_neg (by omega), if_pos rfl]

theorem accept_near (above : w.next < x) (near : x ≤ w.next + w.width) :
    w.accept x = (w.buffer x above near, .buffered w.next (x - 1)) := by
  rw [accept, if_neg (by omega), if_neg (by omega), dif_pos (And.intro above near)]

theorem accept_far (far : w.next + w.width < x) :
    w.accept x = (w, .tooFar w.next (x - 1)) := by
  rw [accept, if_neg (by omega), if_neg (by omega), dif_neg (by omega)]

end ReorderWindow
