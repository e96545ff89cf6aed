import FeedHandler.Lib.ProbeTableRoom
import Mathlib.Data.Finmap

/-! A probe table is a finite map: it answers every lookup as the map does and its
counter is the number of keys. An accepted insert and every erase are the map's own;
a rejected insert leaves the map as it is. -/
namespace ProbeTable

variable {K V : Type*} {layout : ProbeLayout K} [DecidableEq K] {t : ProbeTable layout V}
  {m : Finmap fun _ : K => V} {k : K} {v : V}

structure Represents (t : ProbeTable layout V) (m : Finmap fun _ : K => V) : Prop where
  sound : t.Sound
  lookup : ∀ k, t.find? k = m.lookup k
  count : t.count = m.keys.card

theorem create_represents : (create layout V).Represents ∅ where
  sound := create_sound
  lookup := by
    intro k
    rw [Finmap.lookup_empty, Option.eq_none_iff_forall_ne_some]
    intro v found
    obtain ⟨i, here⟩ := create_sound.find?_iff.mp found
    cases here
  count := rfl

/-- The table holds a key under some value exactly when the map has the key. -/
theorem Represents.held_iff (represents : t.Represents m) (k : K) :
    (∃ v, t.Holds k v) ↔ k ∈ m.keys := by
  rw [Finmap.mem_keys, Finmap.mem_iff]
  refine exists_congr fun v => ?_
  rw [← represents.lookup k, represents.sound.find?_iff]

/-- What a table stands for is a matter of its slots and its counter. -/
theorem Represents.of_slots {t' : ProbeTable layout V} (represents : t.Represents m)
    (slots : t'.slots = t.slots) (count : t'.count = t.count) : t'.Represents m := by
  have sound := represents.sound.of_slots slots
  refine ⟨sound, ?_, count.trans represents.count⟩
  intro k
  rw [← represents.lookup k]
  apply Option.ext
  intro v
  rw [sound.find?_iff, represents.sound.find?_iff, Holds, Holds, slots]

theorem keys_insert (m : Finmap fun _ : K => V) (k : K) (v : V) :
    (m.insert k v).keys = insert k m.keys := by
  ext other
  rw [Finset.mem_insert, Finmap.mem_keys, Finmap.mem_insert, Finmap.mem_keys]

theorem Represents.put (represents : t.Represents m) (accepted : (t.put k v).2 = true) :
    (t.put k v).1.Represents (m.insert k v) := by
  have stored := represents.sound.put accepted
  refine ⟨stored.sound, ?_, ?_⟩
  · intro other
    rw [stored.find?_eq represents.sound]
    split
    · next same => rw [same, Finmap.lookup_insert]
    · next distinct => rw [Finmap.lookup_insert_of_ne m distinct, represents.lookup]
  · rw [keys_insert]
    by_cases present : k ∈ m.keys
    · obtain ⟨w, held⟩ := (represents.held_iff k).mpr present
      rw [Finset.insert_eq_of_mem present, (represents.sound.put_held held accepted).2,
        represents.count]
    · have missing := not_exists.mp (mt (represents.held_iff k).mp present)
      rw [Finset.card_insert_of_notMem present, stored.count missing, represents.count]

/-- A rejected insert only counts itself. -/
theorem put_rejected (rejected : (t.put k v).2 = false) :
    (t.put k v).1 = { t with dropped := t.dropped + 1 } := by
  simp only [ProbeTable.put] at rejected ⊢
  split
  · rfl
  · next fits =>
    rw [if_neg fits] at rejected
    split at rejected
    · rfl
    · cases rejected

theorem put_accepted_dropped (accepted : (t.put k v).2 = true) :
    (t.put k v).1.dropped = t.dropped := by
  simp only [ProbeTable.put] at accepted ⊢
  split at accepted
  · cases accepted
  · next fits =>
    rw [if_neg fits]
    split at accepted
    · cases accepted
    · rfl

theorem Represents.erase (represents : t.Represents m) (k : K) :
    (t.erase k).Represents (m.erase k) := by
  refine ⟨represents.sound.erase k, ?_, ?_⟩
  · intro other
    rw [represents.sound.find?_erase]
    split
    · next same => rw [same, Finmap.lookup_erase]
    · next distinct => rw [Finmap.lookup_erase_ne distinct, represents.lookup]
  · rw [Finmap.keys_erase]
    by_cases present : k ∈ m.keys
    · obtain ⟨w, held⟩ := (represents.held_iff k).mpr present
      rw [Finset.card_erase_of_mem present, represents.sound.count_erase held, represents.count]
    · have absent : t.find? k = none := by
        rw [represents.lookup, Finmap.lookup_eq_none, ← Finmap.mem_keys]
        exact present
      rw [Finset.erase_eq_of_notMem present, erase_of_not_found absent, represents.count]

end ProbeTable
