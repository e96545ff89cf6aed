import FeedHandler.Lib.ProbeTable
import Mathlib.Algebra.BigOperators.Fin
import Mathlib.Algebra.Order.BigOperators.Group.Finset

/-! Totals over the live entries of a probe table: a weight for each entry, summed over
the slots. Each operation changes a total by the weight of the entry it touches. -/
namespace ProbeTable

variable {K V : Type*} {layout : ProbeLayout K}

/-- The weight of a slot, nothing unless it is live. -/
def slotWeight (weight : K → V → Nat) : ProbeSlot K V → Nat
  | .live key value => weight key value
  | _ => 0

/-- The weights of all live entries. -/
def total (weight : K → V → Nat) (t : ProbeTable layout V) : Nat :=
  ∑ i, slotWeight weight (t.slots i)

variable (weight : K → V → Nat) {t t' : ProbeTable layout V} {k : K} {v w : V}
  {i : Fin layout.size}

@[simp] theorem total_create : total weight (create layout V) = 0 :=
  Finset.sum_eq_zero (fun _ _ => rfl)

/-- Writing one slot exchanges its weight for the new one. -/
theorem total_update {slot : ProbeSlot K V}
    (slots : t'.slots = Function.update t.slots i slot) :
    total weight t' + slotWeight weight (t.slots i) =
      total weight t + slotWeight weight slot := by
  have before := Finset.add_sum_erase Finset.univ (fun j => slotWeight weight (t.slots j))
    (Finset.mem_univ i)
  have after := Finset.add_sum_erase Finset.univ
    (fun j => slotWeight weight (Function.update t.slots i slot j)) (Finset.mem_univ i)
  have others : ∑ j ∈ Finset.univ.erase i, slotWeight weight (Function.update t.slots i slot j) =
      ∑ j ∈ Finset.univ.erase i, slotWeight weight (t.slots j) := by
    apply Finset.sum_congr rfl
    intro j member
    rw [Function.update_of_ne (Finset.ne_of_mem_erase member)]
  simp only [Function.update_self] at after
  simp only [total, slots]
  omega

/-- A bound on every entry bounds the total. -/
theorem total_le {bound : Nat} (each : ∀ key value, weight key value ≤ bound) :
    total weight t ≤ layout.size * bound := by
  have slots : ∀ j ∈ Finset.univ, slotWeight weight (t.slots j) ≤ bound := by
    intro j _
    cases t.slots j with
    | live key value => exact each key value
    | empty => exact Nat.zero_le _
    | tombstone => exact Nat.zero_le _
  have sum := Finset.sum_le_card_nsmul _ _ _ slots
  rwa [Finset.card_univ, Fintype.card_fin, smul_eq_mul] at sum

/-- An entry is part of the total. -/
theorem weight_le_total (held : t.Holds k v) : weight k v ≤ total weight t := by
  obtain ⟨i, here⟩ := held
  have part := Finset.single_le_sum (fun j _ => Nat.zero_le (slotWeight weight (t.slots j)))
    (Finset.mem_univ i)
  rwa [here] at part

variable [DecidableEq K]

theorem Sound.total_erase (sound : t.Sound) (held : t.Holds k v) :
    total weight (t.erase k) + weight k v = total weight t := by
  obtain ⟨i, here⟩ := held
  have slots : (t.erase k).slots = Function.update t.slots i .tombstone := by
    simp only [ProbeTable.erase, sound.locate_iff.mpr ⟨v, here⟩]
  have change := total_update weight slots
  rw [here] at change
  exact change

theorem Sound.total_assign (sound : t.Sound) (held : t.Holds k v) :
    total weight (t.assign k w) + weight k v = total weight t + weight k w := by
  obtain ⟨i, here⟩ := held
  have slots : (t.assign k w).slots = Function.update t.slots i (.live k w) := by
    simp only [ProbeTable.assign, sound.locate_iff.mpr ⟨v, here⟩]
  have change := total_update weight slots
  rw [here] at change
  exact change

theorem Sound.total_put (sound : t.Sound) (missing : ∀ w, ¬ t.Holds k w)
    (accepted : (t.put k v).2 = true) :
    total weight (t.put k v).1 = total weight t + weight k v := by
  obtain ⟨_, i, slots, ⟨w, here⟩ | ⟨_, _, free, _⟩⟩ := sound.put_target accepted
  · exact absurd ⟨i, here⟩ (missing w)
  · have change := total_update weight slots
    have nothing : slotWeight weight (t.slots i) = 0 := by
      cases slot : t.slots i with
      | live key w => exact absurd slot (free key w)
      | empty => rfl
      | tombstone => rfl
    rwa [nothing, Nat.add_zero] at change

omit [DecidableEq K] in
/-- A table without entries adds up to nothing. -/
theorem total_of_nothing (nothing : ∀ key value, ¬ t.Holds key value) : total weight t = 0 := by
  apply Finset.sum_eq_zero
  intro i _
  cases slot : t.slots i with
  | live key value => exact absurd ⟨i, slot⟩ (nothing key value)
  | empty => rfl
  | tombstone => rfl

/-- The total over the slots is the total over the keys, in any order. -/
theorem Sound.total_eq_sum (sound : t.Sound) {keys : List K} (distinct : keys.Nodup)
    (held : ∀ key, (∃ value, t.Holds key value) ↔ key ∈ keys) :
    total weight t = (keys.map fun key => ((t.find? key).map (weight key)).getD 0).sum := by
  induction keys generalizing t with
  | nil =>
    refine total_of_nothing weight fun key value entry => ?_
    exact absurd ((held key).mp ⟨value, entry⟩) List.not_mem_nil
  | cons key rest ih =>
    obtain ⟨unseen, distinctRest⟩ := List.nodup_cons.mp distinct
    obtain ⟨value, entry⟩ := (held key).mpr List.mem_cons_self
    have without : ∀ other, (∃ value, (t.erase key).Holds other value) ↔ other ∈ rest := by
      intro other
      simp only [sound.holds_erase, exists_and_left, held, List.mem_cons]
      constructor
      · rintro ⟨apart, same | later⟩
        · exact absurd same apart
        · exact later
      · exact fun later => ⟨fun same => unseen (same ▸ later), Or.inr later⟩
    have others : (rest.map fun other => (((t.erase key).find? other).map (weight other)).getD 0) =
        rest.map fun other => ((t.find? other).map (weight other)).getD 0 := by
      apply List.map_congr_left
      intro other later
      have apart : other ≠ key := fun same => unseen (same ▸ later)
      rw [sound.find?_erase, if_neg apart]
    have total := sound.total_erase weight entry
    rw [ih (sound.erase key) distinctRest without, others] at total
    rw [List.map_cons, List.sum_cons, sound.find?_iff.mpr entry, ← total, Nat.add_comm]
    rfl

end ProbeTable
