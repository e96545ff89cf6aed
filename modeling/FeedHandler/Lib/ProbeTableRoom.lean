import FeedHandler.Lib.ProbeTableSum

/-! When a probe table takes a key. The probe path of a key visits every slot, so a table
that is not more than half full rejects a key only once no slot is empty. Erasing leaves
tombstones, so slots that were used once never become empty again. -/

/-- A slot that no key was ever written to. -/
def ProbeSlot.unused {K V : Type*} : ProbeSlot K V → Bool
  | .empty => true
  | _ => false

namespace ProbeTable

variable {K V : Type*} {layout : ProbeLayout K} {t t' : ProbeTable layout V} {k : K} {v w : V}
  {i : Fin layout.size}

/-- The number of live entries. -/
def live (t : ProbeTable layout V) : Nat := t.total fun _ _ => 1

def unusedSlots (t : ProbeTable layout V) : Nat :=
  (Finset.univ.filter fun i => (t.slots i).unused = true).card

/-- The table has the key already, or a slot that was never used. -/
def HasRoom (t : ProbeTable layout V) (k : K) : Prop :=
  (∃ i, t.slots i = .empty) ∨ ∃ v, t.Holds k v

theorem live_of_slots (slots : t'.slots = t.slots) : t'.live = t.live := by
  simp only [live, total, slots]

theorem position_surjective (k : K) (i : Fin layout.size) :
    ∃ step < layout.size, position layout k step = i := by
  have positive := layout.size_pos
  have home : layout.hash k % layout.size < layout.size := Nat.mod_lt _ positive
  have inside := i.isLt
  by_cases ahead : layout.hash k % layout.size ≤ i
  · refine ⟨i - layout.hash k % layout.size, by omega, Fin.ext ?_⟩
    simp only [position]
    rw [Nat.add_mod, Nat.mod_eq_of_lt (a := i - _) (by omega), Nat.add_sub_cancel' ahead]
    exact Nat.mod_eq_of_lt inside
  · have around : layout.hash k % layout.size + (layout.size + i - layout.hash k % layout.size) =
        layout.size + i := by omega
    refine ⟨layout.size + i - layout.hash k % layout.size, by omega, Fin.ext ?_⟩
    simp only [position]
    rw [Nat.add_mod, Nat.mod_eq_of_lt (a := layout.size + i - _) (by omega), around,
      Nat.add_mod_left]
    exact Nat.mod_eq_of_lt inside

theorem unusedSlots_pos : 0 < t.unusedSlots ↔ ∃ i, t.slots i = .empty := by
  simp only [unusedSlots, Finset.card_pos, Finset.Nonempty, Finset.mem_filter, Finset.mem_univ,
    true_and]
  refine exists_congr fun i => ?_
  cases t.slots i <;> simp [ProbeSlot.unused]

theorem unusedSlots_create : (create layout V).unusedSlots = layout.size := by
  simp [unusedSlots, create, ProbeSlot.unused]

/-- Writing one slot uses up at most that slot. -/
theorem unusedSlots_update {slot : ProbeSlot K V}
    (slots : t'.slots = Function.update t.slots i slot) : t.unusedSlots ≤ t'.unusedSlots + 1 := by
  have within : (Finset.univ.filter fun j => (t.slots j).unused = true) ⊆
      insert i (Finset.univ.filter fun j => (t'.slots j).unused = true) := by
    intro j member
    rw [Finset.mem_insert]
    rcases eq_or_ne j i with here | other
    · exact Or.inl here
    · refine Or.inr ?_
      rw [Finset.mem_filter] at member ⊢
      rw [slots, Function.update_of_ne other]
      exact member
  exact (Finset.card_le_card within).trans (Finset.card_insert_le _ _)

/-- Writing a slot that was used before leaves the unused ones alone. -/
theorem unusedSlots_rewrite {slot : ProbeSlot K V} (used : (t.slots i).unused = false)
    (filled : slot.unused = false)
    (slots : t'.slots = Function.update t.slots i slot) : t'.unusedSlots = t.unusedSlots := by
  refine congrArg Finset.card (Finset.filter_congr fun j _ => ?_)
  rw [slots]
  rcases eq_or_ne j i with rfl | other
  · rw [Function.update_self, used, filled]
  · rw [Function.update_of_ne other]

variable [DecidableEq K]

/-- The search for a slot fails exactly when it passes neither the key nor an empty slot. -/
theorem targetFrom_eq_none {fuel step : Nat} {stone : Option (Fin layout.size)} :
    t.targetFrom k fuel step stone = none ↔
      ∀ j, step ≤ j → j < step + fuel → t.slots (position layout k j) ≠ .empty ∧
        ∀ v, t.slots (position layout k j) ≠ .live k v := by
  induction fuel generalizing step stone with
  | zero =>
    simp only [targetFrom, true_iff]
    intro j after before
    omega
  | succ fuel ih =>
    have split : (∀ j, step ≤ j → j < step + (fuel + 1) → t.slots (position layout k j) ≠ .empty ∧
        ∀ v, t.slots (position layout k j) ≠ .live k v) ↔
        (t.slots (position layout k step) ≠ .empty ∧
          ∀ v, t.slots (position layout k step) ≠ .live k v) ∧
        ∀ j, step + 1 ≤ j → j < step + 1 + fuel → t.slots (position layout k j) ≠ .empty ∧
          ∀ v, t.slots (position layout k j) ≠ .live k v := by
      constructor
      · intro all
        exact ⟨all step le_rfl (by omega), fun j after before => all j (by omega) (by omega)⟩
      · rintro ⟨first, rest⟩ j after before
        rcases Nat.eq_or_lt_of_le after with rfl | later
        · exact first
        · exact rest j later (by omega)
    rw [split]
    simp only [targetFrom]
    cases slot : t.slots (position layout k step) with
    | empty => simp
    | tombstone => simp [ih]
    | live key value =>
      by_cases same : key = k
      · simp [same]
      · simp [same, ih]

theorem targetFrom_eq_none_iff : t.targetFrom k layout.size 0 none = none ↔ ¬ t.HasRoom k := by
  rw [targetFrom_eq_none]
  simp only [HasRoom, Holds, not_or, not_exists]
  constructor
  · intro passed
    refine ⟨fun i => ?_, fun v i => ?_⟩
    · obtain ⟨step, inside, rfl⟩ := position_surjective k i
      exact (passed step (Nat.zero_le _) (by omega)).1
    · obtain ⟨step, inside, rfl⟩ := position_surjective k i
      exact (passed step (Nat.zero_le _) (by omega)).2 v
  · rintro ⟨filled, absent⟩ j _ _
    exact ⟨filled _, fun v => absent v _⟩

/-- A table takes a key exactly when it is not more than half full and has room for it. -/
theorem put_accepted_iff : (t.put k v).2 = true ↔ t.count ≤ layout.size / 2 ∧ t.HasRoom k := by
  simp only [put]
  split
  · next full => simp [Nat.not_le.mpr full]
  · next fits =>
    have half : t.count ≤ layout.size / 2 := Nat.not_lt.mp fits
    split
    · next missed => simp [targetFrom_eq_none_iff.mp missed]
    · next target =>
      have room : t.HasRoom k := by
        by_contra none
        rw [targetFrom_eq_none_iff.mpr none] at target
        cases target
      simp [half, room]

theorem put_rejected_slots (rejected : (t.put k v).2 = false) :
    (t.put k v).1.slots = t.slots ∧ (t.put k v).1.count = t.count := by
  simp only [put] at rejected ⊢
  split
  · exact ⟨rfl, rfl⟩
  · next fits =>
    rw [if_neg fits] at rejected
    split at rejected
    · exact ⟨rfl, rfl⟩
    · cases rejected

theorem erase_of_not_found (absent : t.find? k = none) : t.erase k = t := by
  simp only [find?] at absent
  simp only [erase]
  split
  · rfl
  · next i located =>
    obtain ⟨v, here⟩ := locateFrom_live located
    simp only [located, here] at absent
    cases absent

/-- A key whose first slot is empty is stored there. -/
theorem put_first (half : t.count ≤ layout.size / 2)
    (unused : t.slots (position layout k 0) = .empty) :
    t.put k v = ({ t with
      slots := Function.update t.slots (position layout k 0) (.live k v)
      count := t.count + 1 }, true) := by
  have target : ∀ fuel, 0 < fuel →
      t.targetFrom k fuel 0 none = some (position layout k 0, true) := by
    rintro (_ | fuel) positive
    · omega
    · simp only [targetFrom, unused, Option.getD_none]
  simp only [put, if_neg (Nat.not_lt.mpr half), target _ layout.size_pos, if_true]

/-- A key in its first slot is found there. -/
theorem locate_first (here : t.slots (position layout k 0) = .live k v) :
    t.locate k = some (position layout k 0) := by
  have located : ∀ fuel, 0 < fuel → t.locateFrom k fuel 0 = some (position layout k 0) := by
    rintro (_ | fuel) positive
    · omega
    · simp only [locateFrom, here, if_true]
  exact located _ layout.size_pos

/-- One `put` uses up at most one slot. -/
theorem unusedSlots_put : t.unusedSlots ≤ (t.put k v).1.unusedSlots + 1 := by
  simp only [put]
  split
  · exact Nat.le_succ _
  · split
    · exact Nat.le_succ _
    · exact unusedSlots_update rfl

theorem unusedSlots_erase : (t.erase k).unusedSlots = t.unusedSlots := by
  simp only [erase]
  split
  · rfl
  · next i located =>
    obtain ⟨v, here⟩ := locateFrom_live located
    exact unusedSlots_rewrite (by rw [here]; rfl) rfl rfl

/-- A sound table whose counter is the number of its live entries. -/
structure Counted (t : ProbeTable layout V) : Prop where
  sound : t.Sound
  count : t.count = t.live

omit [DecidableEq K] in
theorem create_counted : (create layout V).Counted :=
  ⟨create_sound, (total_create _).symm⟩

omit [DecidableEq K] in
theorem Counted.of_slots (counted : t.Counted) (slots : t'.slots = t.slots)
    (count : t'.count = t.count) : t'.Counted := by
  refine ⟨counted.sound.of_slots slots, ?_⟩
  rw [count, counted.count, live_of_slots slots]

theorem Counted.assign (counted : t.Counted) (k : K) (v : V) : (t.assign k v).Counted := by
  refine ⟨counted.sound.assign k v, ?_⟩
  rw [count_assign, counted.count]
  simp only [ProbeTable.assign]
  split
  · rfl
  · next i located =>
    obtain ⟨w, here⟩ := locateFrom_live located
    let written := { t with slots := Function.update t.slots i (.live k v) }
    have slots : written.slots = Function.update t.slots i (.live k v) := rfl
    have change := total_update (fun _ _ => 1) slots
    rw [here] at change
    exact (Nat.add_right_cancel change).symm

/-- Putting a key that the table has writes through its slot. -/
theorem Sound.put_held (sound : t.Sound) (held : t.Holds k w) (accepted : (t.put k v).2 = true) :
    (t.put k v).1.slots = (t.assign k v).slots ∧ (t.put k v).1.count = t.count := by
  obtain ⟨i, here⟩ := held
  have located : t.locate k = some i := sound.locate_iff.mpr ⟨w, here⟩
  have start : t.Scanned k 0 none := ⟨fun _ before => by omega, fun _ before => by omega,
    fun _ member => by cases member⟩
  simp only [ProbeTable.put] at accepted ⊢
  split at accepted
  · cases accepted
  · next fits =>
    rw [if_neg fits]
    cases target : t.targetFrom k layout.size 0 none with
    | none =>
      rw [target] at accepted
      cases accepted
    | some result =>
      obtain ⟨j, fresh⟩ := result
      rcases sound.targetFrom_spec start (by omega) target with
        ⟨rfl, x, there⟩ | ⟨_, missing, _⟩
      · simp only [ProbeTable.assign, located]
        rw [sound.unique i j k w x here there]
        exact ⟨rfl, rfl⟩
      · exact absurd ⟨i, here⟩ (missing w)

theorem Counted.put (counted : t.Counted) (k : K) (v : V) : (t.put k v).1.Counted := by
  cases accepted : (t.put k v).2 with
  | false =>
    obtain ⟨slots, count⟩ := put_rejected_slots accepted
    exact counted.of_slots slots count
  | true =>
    refine ⟨(counted.sound.put accepted).sound, ?_⟩
    by_cases held : ∃ w, t.Holds k w
    · obtain ⟨w, held⟩ := held
      obtain ⟨slots, count⟩ := counted.sound.put_held held accepted
      exact ((counted.assign k v).of_slots slots (count.trans (count_assign k v).symm)).count
    · rw [(counted.sound.put accepted).count (not_exists.mp held), counted.count, live, live,
        counted.sound.total_put _ (not_exists.mp held) accepted]

theorem Counted.erase (counted : t.Counted) (k : K) : (t.erase k).Counted := by
  refine ⟨counted.sound.erase k, ?_⟩
  cases found : t.find? k with
  | none =>
    rw [erase_of_not_found found]
    exact counted.count
  | some v =>
    have held := counted.sound.find?_iff.mp found
    have change := counted.sound.total_erase (fun _ _ => 1) held
    rw [counted.sound.count_erase held, counted.count]
    simp only [live]
    omega

end ProbeTable
