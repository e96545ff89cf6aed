import Mathlib.Logic.Function.Basic

/-! Open addressing with linear probing and tombstones, for any number of slots and
any hash. A key is found at the end of a probe path without empty slots; erasing
leaves a tombstone, so the paths of other keys stay connected. -/

/-- Number of slots and hash of a table. -/
structure ProbeLayout (K : Type*) where
  size : Nat
  size_pos : 0 < size
  hash : K → Nat

inductive ProbeSlot (K V : Type*) where
  | empty
  | live (key : K) (value : V)
  | tombstone

structure ProbeTable {K : Type*} (layout : ProbeLayout K) (V : Type*) where
  slots : Fin layout.size → ProbeSlot K V
  count : Nat := 0
  dropped : Nat := 0

namespace ProbeTable

variable {K V : Type*} {layout : ProbeLayout K}

/-- The slot probed for `k` after `step` steps. -/
def position (layout : ProbeLayout K) (k : K) (step : Nat) : Fin layout.size :=
  ⟨(layout.hash k + step) % layout.size, Nat.mod_lt _ layout.size_pos⟩

def create (layout : ProbeLayout K) (V : Type*) : ProbeTable layout V where
  slots := fun _ => .empty

variable [DecidableEq K]

/-- Probe for a live slot with key `k`, until an empty slot ends the path. -/
def locateFrom (t : ProbeTable layout V) (k : K) : Nat → Nat → Option (Fin layout.size)
  | 0, _ => none
  | fuel + 1, step =>
    match t.slots (position layout k step) with
    | .empty => none
    | .live key _ =>
      if key = k then some (position layout k step) else locateFrom t k fuel (step + 1)
    | .tombstone => locateFrom t k fuel (step + 1)

def locate (t : ProbeTable layout V) (k : K) : Option (Fin layout.size) :=
  t.locateFrom k layout.size 0

def find? (t : ProbeTable layout V) (k : K) : Option V :=
  match t.locate k with
  | none => none
  | some i =>
    match t.slots i with
    | .live _ value => some value
    | _ => none

/-- Write through the slot that `find?` points to. -/
def assign (t : ProbeTable layout V) (k : K) (v : V) : ProbeTable layout V :=
  match t.locate k with
  | none => t
  | some i => { t with slots := Function.update t.slots i (.live k v) }

def erase (t : ProbeTable layout V) (k : K) : ProbeTable layout V :=
  match t.locate k with
  | none => t
  | some i =>
    { t with
      slots := Function.update t.slots i .tombstone
      count := if t.count > 0 then t.count - 1 else t.count }

/-- Probe for the slot to write `k` to: its own, else the first tombstone on the
way to the first empty slot, else that slot. The flag tells a new key. -/
def targetFrom (t : ProbeTable layout V) (k : K) :
    Nat → Nat → Option (Fin layout.size) → Option (Fin layout.size × Bool)
  | 0, _, _ => none
  | fuel + 1, step, stone =>
    match t.slots (position layout k step) with
    | .live key _ =>
      if key = k then some (position layout k step, false)
      else targetFrom t k fuel (step + 1) stone
    | .tombstone => targetFrom t k fuel (step + 1) (stone.or (some (position layout k step)))
    | .empty => some (stone.getD (position layout k step), true)

/-- A table more than half full, and one without an empty slot on the path, rejects. -/
def put (t : ProbeTable layout V) (k : K) (v : V) : ProbeTable layout V × Bool :=
  if t.count > layout.size / 2 then ({ t with dropped := t.dropped + 1 }, false)
  else
    match t.targetFrom k layout.size 0 none with
    | none => ({ t with dropped := t.dropped + 1 }, false)
    | some (i, fresh) =>
      ({ t with
          slots := Function.update t.slots i (.live k v)
          count := if fresh then t.count + 1 else t.count }, true)

variable {t : ProbeTable layout V} {k k' : K} {v v' : V} {i : Fin layout.size}

/-- The table holds `v` under `k`. -/
def Holds (t : ProbeTable layout V) (k : K) (v : V) : Prop := ∃ i, t.slots i = .live k v

omit [DecidableEq K] in
/-- No empty slot comes before step `step` on the path of `k`. -/
def Connected (t : ProbeTable layout V) (k : K) (step : Nat) : Prop :=
  ∀ j < step, t.slots (position layout k j) ≠ .empty

/-- Every live slot lies on a connected path of its key, and no key has two. -/
structure Sound (t : ProbeTable layout V) : Prop where
  path : ∀ i k v, t.slots i = .live k v →
    ∃ step < layout.size, position layout k step = i ∧ t.Connected k step
  unique : ∀ i j k v w, t.slots i = .live k v → t.slots j = .live k w → i = j

omit [DecidableEq K] in
theorem create_sound : (create layout V).Sound where
  path := by
    intro i k v found
    cases found
  unique := by
    intro i j k v w found
    cases found

theorem locateFrom_live {fuel step : Nat} (found : t.locateFrom k fuel step = some i) :
    ∃ v, t.slots i = .live k v := by
  induction fuel generalizing step with
  | zero => cases found
  | succ fuel ih =>
    simp only [locateFrom] at found
    split at found
    · cases found
    · next key value here =>
      split at found
      · next same =>
        cases found
        exact ⟨value, same ▸ here⟩
      · exact ih found
    · exact ih found

/-- The probe reaches a key at the end of a connected path. -/
theorem Sound.locateFrom_reaches (sound : t.Sound) (here : t.slots i = .live k v)
    {target : Nat} (ends : position layout k target = i) (connected : t.Connected k target)
    {fuel step : Nat} (ahead : step ≤ target) (enough : target < step + fuel) :
    t.locateFrom k fuel step = some i := by
  induction fuel generalizing step with
  | zero => omega
  | succ fuel ih =>
    by_cases last : step = target
    · subst last
      simp only [locateFrom]
      rw [ends, here]
      simp
    · have onward : t.locateFrom k fuel (step + 1) = some i := ih (by omega) (by omega)
      simp only [locateFrom]
      cases slot : t.slots (position layout k step) with
      | empty => exact absurd slot (connected step (by omega))
      | tombstone => exact onward
      | live key value =>
        simp only
        split
        · next same =>
          have atEnd : position layout k step = i := sound.unique _ _ k value v (same ▸ slot) here
          rw [atEnd]
        · exact onward

theorem Sound.locate_iff (sound : t.Sound) : t.locate k = some i ↔ ∃ v, t.slots i = .live k v := by
  constructor
  · exact locateFrom_live
  · rintro ⟨v, here⟩
    obtain ⟨step, inside, ends, connected⟩ := sound.path i k v here
    exact sound.locateFrom_reaches here ends connected (Nat.zero_le _) (by omega)

theorem Sound.find?_iff (sound : t.Sound) : t.find? k = some v ↔ t.Holds k v := by
  simp only [find?]
  constructor
  · intro found
    split at found
    · cases found
    · next i located =>
      obtain ⟨w, here⟩ := sound.locate_iff.mp located
      rw [here] at found
      cases found
      exact ⟨i, here⟩
  · rintro ⟨i, here⟩
    rw [sound.locate_iff.mpr ⟨v, here⟩]
    simp only [here]

omit [DecidableEq K] in
/-- Writing any slot that is not empty afterwards keeps connected paths connected. -/
theorem Connected.update {slot : ProbeSlot K V} {step : Nat} (connected : t.Connected k step)
    (filled : slot ≠ .empty) :
    ∀ j < step, Function.update t.slots i slot (position layout k j) ≠ .empty := by
  intro j before
  rcases eq_or_ne (position layout k j) i with here | other
  · rw [here, Function.update_self]
    exact filled
  · rw [Function.update_of_ne other]
    exact connected j before

omit [DecidableEq K] in
/-- Writing the slot of a key, but not emptying it or giving it to another key. -/
theorem Sound.overwrite {t' : ProbeTable layout V} (sound : t.Sound) (here : t.slots i = .live k v)
    {slot : ProbeSlot K V} (slots : t'.slots = Function.update t.slots i slot)
    (filled : slot ≠ .empty) (keyed : ∀ key x, slot = .live key x → key = k) : t'.Sound := by
  have earlier : ∀ {j key x}, t'.slots j = .live key x → ∃ y, t.slots j = .live key y := by
    intro j key x found
    rw [slots] at found
    rcases eq_or_ne j i with rfl | other
    · rw [Function.update_self] at found
      rw [keyed key x found]
      exact ⟨v, here⟩
    · rw [Function.update_of_ne other] at found
      exact ⟨x, found⟩
  refine ⟨?_, ?_⟩
  · intro j key x found
    obtain ⟨y, before⟩ := earlier found
    obtain ⟨step, inside, ends, connected⟩ := sound.path j key y before
    refine ⟨step, inside, ends, ?_⟩
    rw [Connected, slots]
    exact connected.update filled
  · intro j l key x y first second
    obtain ⟨x', before⟩ := earlier first
    obtain ⟨y', after⟩ := earlier second
    exact sound.unique j l key x' y' before after

omit [DecidableEq K] in
/-- Then the key has what the slot says, and the others keep what they have. -/
theorem Sound.holds_overwrite (sound : t.Sound) (here : t.slots i = .live k v)
    (slot : ProbeSlot K V) :
    (∃ j, Function.update t.slots i slot j = .live k' v') ↔
      slot = .live k' v' ∨ k' ≠ k ∧ t.Holds k' v' := by
  constructor
  · rintro ⟨j, found⟩
    rcases eq_or_ne j i with rfl | other
    · rw [Function.update_self] at found
      exact Or.inl found
    · rw [Function.update_of_ne other] at found
      exact Or.inr ⟨fun same => other (sound.unique j i k v' v (same ▸ found) here), j, found⟩
  · rintro (written | ⟨distinct, j, found⟩)
    · exact ⟨i, by rw [Function.update_self, written]⟩
    · have other : j ≠ i := by
        rintro rfl
        rw [here] at found
        cases found
        exact distinct rfl
      exact ⟨j, by rw [Function.update_of_ne other, found]⟩

theorem Sound.assign (sound : t.Sound) (k : K) (v : V) : (t.assign k v).Sound := by
  simp only [ProbeTable.assign]
  cases located : t.locate k with
  | none => exact sound
  | some i =>
    obtain ⟨w, here⟩ := sound.locate_iff.mp located
    refine sound.overwrite here rfl (by simp) ?_
    rintro key x written
    cases written
    rfl

theorem Sound.holds_assign (sound : t.Sound) (present : t.Holds k v) (w : V) :
    (t.assign k w).Holds k' v' ↔ if k' = k then v' = w else t.Holds k' v' := by
  obtain ⟨i, here⟩ := present
  simp only [ProbeTable.assign]
  rw [sound.locate_iff.mpr ⟨v, here⟩]
  refine (sound.holds_overwrite here (.live k w)).trans ?_
  by_cases same : k' = k
  · simp [same, eq_comm]
  · simp [same, Ne.symm same]

theorem count_assign (k : K) (v : V) : (t.assign k v).count = t.count := by
  simp only [ProbeTable.assign]
  split <;> rfl

theorem Sound.erase (sound : t.Sound) (k : K) : (t.erase k).Sound := by
  simp only [ProbeTable.erase]
  cases located : t.locate k with
  | none => exact sound
  | some i =>
    obtain ⟨w, here⟩ := sound.locate_iff.mp located
    refine sound.overwrite here rfl (by simp) ?_
    rintro key x written
    cases written

theorem Sound.holds_erase (sound : t.Sound) :
    (t.erase k).Holds k' v' ↔ k' ≠ k ∧ t.Holds k' v' := by
  simp only [ProbeTable.erase]
  cases located : t.locate k with
  | none =>
    refine ⟨fun held => ⟨?_, held⟩, And.right⟩
    rintro rfl
    obtain ⟨i, here⟩ := held
    rw [sound.locate_iff.mpr ⟨v', here⟩] at located
    cases located
  | some i =>
    obtain ⟨w, here⟩ := sound.locate_iff.mp located
    refine (sound.holds_overwrite here .tombstone).trans ?_
    simp

theorem Sound.count_erase (sound : t.Sound) (present : t.Holds k v) :
    (t.erase k).count = t.count - 1 := by
  obtain ⟨i, here⟩ := present
  simp only [ProbeTable.erase]
  rw [sound.locate_iff.mpr ⟨v, here⟩]
  simp only
  split <;> omega

/-- What the probe of `put` has passed before step `step`. -/
structure Scanned (t : ProbeTable layout V) (k : K) (step : Nat)
    (stone : Option (Fin layout.size)) : Prop where
  connected : t.Connected k step
  absent : ∀ j < step, ∀ v, t.slots (position layout k j) ≠ .live k v
  reusable : ∀ i ∈ stone, t.slots i = .tombstone ∧ ∃ j < step, position layout k j = i

omit [DecidableEq K] in
theorem Scanned.next {step : Nat} {stone : Option (Fin layout.size)}
    (scanned : t.Scanned k step stone) (filled : t.slots (position layout k step) ≠ .empty)
    (other : ∀ v, t.slots (position layout k step) ≠ .live k v) : t.Scanned k (step + 1) stone where
  connected := by
    intro j before
    rcases Nat.lt_succ_iff_lt_or_eq.mp before with earlier | rfl
    · exact scanned.connected j earlier
    · exact filled
  absent := by
    intro j before
    rcases Nat.lt_succ_iff_lt_or_eq.mp before with earlier | rfl
    · exact scanned.absent j earlier
    · exact other
  reusable := by
    intro i member
    obtain ⟨free, j, before, here⟩ := scanned.reusable i member
    exact ⟨free, j, by omega, here⟩

omit [DecidableEq K] in
theorem Scanned.stone {step : Nat} {stone : Option (Fin layout.size)}
    (scanned : t.Scanned k step stone) (free : t.slots (position layout k step) = .tombstone) :
    t.Scanned k (step + 1) (stone.or (some (position layout k step))) := by
  have next := scanned.next (by simp [free]) (by simp [free])
  refine ⟨next.connected, next.absent, ?_⟩
  intro i member
  cases stone with
  | some first => exact next.reusable i member
  | none =>
    cases member
    exact ⟨free, step, Nat.lt_succ_self _, rfl⟩

omit [DecidableEq K] in
/-- A scan that ends at an empty slot has ruled the key out. -/
theorem Scanned.missing {step : Nat} {stone : Option (Fin layout.size)}
    (scanned : t.Scanned k step stone) (sound : t.Sound)
    (free : t.slots (position layout k step) = .empty) (v : V) : ¬ t.Holds k v := by
  rintro ⟨i, here⟩
  obtain ⟨target, _, rfl, connected⟩ := sound.path i k v here
  rcases Nat.lt_trichotomy target step with before | rfl | after
  · exact scanned.absent target before v here
  · rw [free] at here
    cases here
  · exact connected step after free

/-- The slot `put` writes to: the key's own, or a free one on a connected path of a
key that the table does not hold. -/
theorem Sound.targetFrom_spec (sound : t.Sound) {fuel step : Nat}
    {stone : Option (Fin layout.size)} {fresh : Bool} (scanned : t.Scanned k step stone)
    (inside : step + fuel ≤ layout.size)
    (found : t.targetFrom k fuel step stone = some (i, fresh)) :
    (fresh = false ∧ ∃ v, t.slots i = .live k v) ∨
      (fresh = true ∧ (∀ v, ¬ t.Holds k v) ∧ (∀ key v, t.slots i ≠ .live key v) ∧
        ∃ j < layout.size, position layout k j = i ∧ t.Connected k j) := by
  induction fuel generalizing step stone with
  | zero => cases found
  | succ fuel ih =>
    simp only [targetFrom] at found
    cases slot : t.slots (position layout k step) with
    | live key value =>
      simp only [slot] at found
      split at found
      · next same =>
        cases found
        exact Or.inl ⟨rfl, value, same ▸ slot⟩
      · next distinct =>
        exact ih (scanned.next (by simp [slot]) (by simp [slot, distinct])) (by omega) found
    | tombstone =>
      simp only [slot] at found
      exact ih (scanned.stone slot) (by omega) found
    | empty =>
      simp only [slot, Option.some.injEq, Prod.mk.injEq] at found
      obtain ⟨rfl, rfl⟩ := found
      refine Or.inr ⟨rfl, scanned.missing sound slot, ?_⟩
      cases stone with
      | none =>
        refine ⟨fun key v => by simp [slot], step, by omega, rfl, scanned.connected⟩
      | some first =>
        obtain ⟨free, j, before, here⟩ := scanned.reusable first rfl
        refine ⟨fun key v => by simp [free], j, by omega, here, ?_⟩
        exact fun l earlier => scanned.connected l (by omega)

/-- Effect of an accepted `put`: the key gets the value, the others keep theirs. -/
structure Stored (t : ProbeTable layout V) (k : K) (v : V) (t' : ProbeTable layout V) : Prop where
  sound : t'.Sound
  holds : ∀ k' v', t'.Holds k' v' ↔ if k' = k then v' = v else t.Holds k' v'
  room : t.count ≤ layout.size / 2
  count : (∀ w, ¬ t.Holds k w) → t'.count = t.count + 1

omit [DecidableEq K] in
/-- Soundness and contents are a matter of the slots alone. -/
theorem Sound.of_slots {t' : ProbeTable layout V} (sound : t.Sound) (same : t'.slots = t.slots) :
    t'.Sound := by
  obtain ⟨slots, _, _⟩ := t'
  cases same
  exact ⟨sound.path, sound.unique⟩

theorem Sound.put_own (sound : t.Sound) {t' : ProbeTable layout V} {w : V}
    (here : t.slots i = .live k w) (slots : t'.slots = Function.update t.slots i (.live k v))
    (room : t.count ≤ layout.size / 2) : Stored t k v t' := by
  have assigned : t'.slots = (t.assign k v).slots := by
    simp only [ProbeTable.assign]
    rw [sound.locate_iff.mpr ⟨w, here⟩]
    exact slots
  refine ⟨(sound.assign k v).of_slots assigned, ?_, room, fun missing => absurd ⟨i, here⟩ (missing w)⟩
  intro k' v'
  simp only [Holds]
  rw [assigned]
  exact sound.holds_assign ⟨i, here⟩ v

theorem Sound.put_fresh (sound : t.Sound) {t' : ProbeTable layout V}
    (missing : ∀ w, ¬ t.Holds k w) (free : ∀ key w, t.slots i ≠ .live key w)
    {step : Nat} (inside : step < layout.size) (ends : position layout k step = i)
    (connected : t.Connected k step) (slots : t'.slots = Function.update t.slots i (.live k v))
    (count : t'.count = t.count + 1) (room : t.count ≤ layout.size / 2) : Stored t k v t' := by
  have origin : ∀ {j key x}, t'.slots j = .live key x →
      (j = i ∧ key = k ∧ x = v) ∨ (j ≠ i ∧ key ≠ k ∧ t.slots j = .live key x) := by
    intro j key x found
    rw [slots] at found
    rcases eq_or_ne j i with rfl | other
    · rw [Function.update_self] at found
      cases found
      exact Or.inl ⟨rfl, rfl, rfl⟩
    · rw [Function.update_of_ne other] at found
      exact Or.inr ⟨other, fun same => missing x ⟨j, same ▸ found⟩, found⟩
  refine ⟨⟨?_, ?_⟩, ?_, room, fun _ => count⟩
  · intro j key x found
    rcases origin found with ⟨rfl, rfl, rfl⟩ | ⟨_, _, before⟩
    · refine ⟨step, inside, ends, ?_⟩
      simp only [Connected]
      rw [slots]
      exact connected.update (by simp)
    · obtain ⟨target, within, there, path⟩ := sound.path j key x before
      refine ⟨target, within, there, ?_⟩
      simp only [Connected]
      rw [slots]
      exact path.update (by simp)
  · intro j l key x y first second
    rcases origin first with ⟨rfl, rfl, rfl⟩ | ⟨_, distinct, before⟩
    · rcases origin second with ⟨rfl, _, _⟩ | ⟨_, distinct, _⟩
      · rfl
      · exact absurd rfl distinct
    · rcases origin second with ⟨rfl, rfl, _⟩ | ⟨_, _, after⟩
      · exact absurd rfl distinct
      · exact sound.unique j l key x y before after
  · intro k' v'
    constructor
    · rintro ⟨j, found⟩
      rcases origin found with ⟨_, rfl, rfl⟩ | ⟨_, distinct, before⟩
      · simp
      · rw [if_neg distinct]
        exact ⟨j, before⟩
    · split
      · next same =>
        rintro rfl
        exact ⟨i, by rw [slots, Function.update_self, same]⟩
      · rintro ⟨j, before⟩
        have other : j ≠ i := fun same => free k' v' (same ▸ before)
        exact ⟨j, by rw [slots, Function.update_of_ne other]; exact before⟩

/-- An accepted `put` writes one slot: the key's own, or a free one for a new key. -/
theorem Sound.put_target (sound : t.Sound) (accepted : (t.put k v).2 = true) :
    t.count ≤ layout.size / 2 ∧ ∃ i,
      (t.put k v).1.slots = Function.update t.slots i (.live k v) ∧
        ((∃ w, t.slots i = .live k w) ∨
          ((t.put k v).1.count = t.count + 1 ∧ (∀ w, ¬ t.Holds k w) ∧
            (∀ key w, t.slots i ≠ .live key w) ∧
            ∃ j < layout.size, position layout k j = i ∧ t.Connected k j)) := by
  simp only [ProbeTable.put] at accepted ⊢
  split at accepted
  · cases accepted
  · next roomy =>
    rw [if_neg roomy]
    refine ⟨Nat.not_lt.mp roomy, ?_⟩
    cases target : t.targetFrom k layout.size 0 none with
    | none =>
      rw [target] at accepted
      cases accepted
    | some result =>
      obtain ⟨i, fresh⟩ := result
      have start : t.Scanned k 0 none := ⟨fun _ before => by omega, fun _ before => by omega,
        fun _ member => by cases member⟩
      refine ⟨i, rfl, ?_⟩
      rcases sound.targetFrom_spec start (by omega) target with
        ⟨_, own⟩ | ⟨rfl, missing, free, path⟩
      · exact Or.inl own
      · exact Or.inr ⟨rfl, missing, free, path⟩

theorem Sound.put (sound : t.Sound) (accepted : (t.put k v).2 = true) :
    Stored t k v (t.put k v).1 := by
  obtain ⟨room, i, slots, ⟨w, here⟩ | ⟨count, missing, free, step, inside, ends, connected⟩⟩ :=
    sound.put_target accepted
  · exact sound.put_own here slots room
  · exact sound.put_fresh missing free inside ends connected slots count room

theorem Sound.find?_assign (sound : t.Sound) (found : t.find? k = some v) (w : V) (k' : K) :
    (t.assign k w).find? k' = if k' = k then some w else t.find? k' := by
  apply Option.ext
  intro x
  rw [(sound.assign k w).find?_iff, sound.holds_assign (sound.find?_iff.mp found)]
  split
  · simp [eq_comm]
  · rw [sound.find?_iff]

theorem Sound.find?_erase (sound : t.Sound) (k k' : K) :
    (t.erase k).find? k' = if k' = k then none else t.find? k' := by
  apply Option.ext
  intro x
  rw [(sound.erase k).find?_iff, sound.holds_erase]
  split
  · next same => simp [same]
  · next other =>
    rw [sound.find?_iff]
    simp [other]

theorem Stored.find?_eq {t' : ProbeTable layout V} (stored : Stored t k v t') (sound : t.Sound)
    (k' : K) : t'.find? k' = if k' = k then some v else t.find? k' := by
  apply Option.ext
  intro x
  rw [stored.sound.find?_iff, stored.holds]
  split
  · simp [eq_comm]
  · rw [sound.find?_iff]

end ProbeTable
