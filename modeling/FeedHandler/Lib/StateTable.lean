import Mathlib.Algebra.BigOperators.Group.Finset.Basic
import Mathlib.Data.List.Nodup
import Mathlib.Logic.Function.Basic

/-! A table of states that come into being when their key is first used, as the entries
of a hash map do that are reached with `table[key]`. The keys are kept in the order of
their first use. -/

structure StateTable (K : Type*) {S : Type*} (init : S) where
  keys : List K
  state : K → S
  nodup : keys.Nodup
  untouched : ∀ k, k ∉ keys → state k = init

namespace StateTable

/-- The table in which no key was touched. -/
def empty {K S : Type*} {init : S} : StateTable K init where
  keys := []
  state := fun _ => init
  nodup := List.nodup_nil
  untouched := fun _ _ => rfl

@[simp] theorem state_empty {K S : Type*} {init : S} (k : K) :
    (empty : StateTable K init).state k = init := rfl

variable {K S : Type*} [DecidableEq K] {init s : S} {t : StateTable K init} {k j : K}

theorem nodup_append (keys : List K) (nodup : keys.Nodup) (k : K) :
    (if k ∈ keys then keys else keys ++ [k]).Nodup := by
  split
  · exact nodup
  · next fresh =>
    refine List.nodup_append.mpr ⟨nodup, List.nodup_singleton k, ?_⟩
    intro a member b single same
    rw [List.mem_singleton.mp single] at same
    exact fresh (same ▸ member)

/-- `table[k] = s`. -/
def set (t : StateTable K init) (k : K) (s : S) : StateTable K init where
  keys := if k ∈ t.keys then t.keys else t.keys ++ [k]
  state := Function.update t.state k s
  nodup := nodup_append t.keys t.nodup k
  untouched := by
    intro j absent
    split at absent
    · next held =>
      have other : j ≠ k := fun same => absent (same ▸ held)
      rw [Function.update_of_ne other]
      exact t.untouched j absent
    · rw [List.mem_append, List.mem_singleton, not_or] at absent
      rw [Function.update_of_ne absent.2]
      exact t.untouched j absent.1

/-- The same change to every state of the table. -/
def map (t : StateTable K init) (f : S → S) : StateTable K init where
  keys := t.keys
  state := fun k => if k ∈ t.keys then f (t.state k) else init
  nodup := t.nodup
  untouched := fun _ absent => if_neg absent

@[simp] theorem state_set_self (t : StateTable K init) (k : K) (s : S) :
    (t.set k s).state k = s := Function.update_self ..

theorem state_set_of_ne (other : j ≠ k) : (t.set k s).state j = t.state j :=
  Function.update_of_ne other ..

theorem state_map {f : S → S} (fixed : f init = init) (k : K) :
    (t.map f).state k = f (t.state k) := by
  simp only [map]
  split
  · rfl
  · next absent => rw [t.untouched k absent, fixed]

section Total

variable {M : Type*} [AddCommMonoid M] {f : S → M}

/-- The sum of a quantity over the states of the table. -/
def total (t : StateTable K init) (f : S → M) : M := (t.keys.map (fun k => f (t.state k))).sum

theorem total_map (t : StateTable K init) (g : S → S) : (t.map g).total f = t.total (f ∘ g) := by
  simp only [total, map]
  refine congrArg List.sum (List.map_congr_left fun k held => ?_)
  rw [if_pos held, Function.comp_apply]

/-- A quantity that vanishes outside a set of keys adds up over that set. -/
theorem total_eq_sum {s : Finset K} (initial : f init = 0)
    (outside : ∀ k, k ∉ s → f (t.state k) = 0) : t.total f = ∑ k ∈ s, f (t.state k) := by
  have untouched : ∀ k, k ∉ t.keys.toFinset → f (t.state k) = 0 := by
    intro k absent
    rw [t.untouched k (fun held => absent (List.mem_toFinset.mpr held)), initial]
  calc t.total f = ∑ k ∈ t.keys.toFinset, f (t.state k) := (List.sum_toFinset _ t.nodup).symm
    _ = ∑ k ∈ t.keys.toFinset ∪ s, f (t.state k) :=
      Finset.sum_subset Finset.subset_union_left fun k _ => untouched k
    _ = ∑ k ∈ s, f (t.state k) :=
      (Finset.sum_subset Finset.subset_union_right fun k _ => outside k).symm

end Total

end StateTable
