import FeedHandler.Lib.LowerBound

/-! A map kept as a vector sorted by key, searched with the halving search. The order
of the keys is a parameter, so that the same vector serves both directions. -/
namespace FlatMap

variable {K V : Type*}

/-- The strict total order a flat map is sorted by. -/
structure StrictOrder (before : K → K → Bool) : Prop where
  irrefl : ∀ a, before a a = false
  trans : ∀ a b c, before a b = true → before b c = true → before a c = true
  connected : ∀ a b, before a b = false → before b a = false → a = b

def Sorted (before : K → K → Bool) (xs : List (K × V)) : Prop :=
  xs.Pairwise (fun a b => before a.1 b.1 = true)

def position (before : K → K → Bool) (xs : List (K × V)) (k : K) : Nat :=
  LowerBound.index (fun e => before e.1 k) xs

variable [DecidableEq K]

def find? (before : K → K → Bool) (xs : List (K × V)) (k : K) : Option V :=
  match xs[position before xs k]? with
  | none => none
  | some e => if e.1 = k then some e.2 else none

/-- Replace what the map has under `k` by `f` of it: overwrite in place, erase, insert
at the position found, or leave the vector alone. -/
def alter (before : K → K → Bool) (xs : List (K × V)) (k : K) (f : Option V → Option V) :
    List (K × V) :=
  match find? before xs k, f (find? before xs k) with
  | some _, some v => xs.set (position before xs k) (k, v)
  | some _, none => xs.eraseIdx (position before xs k)
  | none, some v => xs.insertIdx (position before xs k) (k, v)
  | none, none => xs

variable {before : K → K → Bool} {xs : List (K × V)} {k k' : K} {v v' : V}

omit [DecidableEq K] in
theorem StrictOrder.asymm (order : StrictOrder before) {a b : K} (lt : before a b = true) :
    before b a = false := by
  cases back : before b a with
  | false => rfl
  | true => exact absurd (order.trans a b a lt back) (by simp [order.irrefl])

/-- The vector around the position of `k`. -/
structure Split (before : K → K → Bool) (xs : List (K × V)) (k : K) (low : List (K × V))
    (here : Option V) (high : List (K × V)) : Prop where
  shape : xs = low ++ ((here.map (k, ·)).toList ++ high)
  below : ∀ e ∈ low, before e.1 k = true
  above : ∀ e ∈ high, before k e.1 = true

theorem exists_split (order : StrictOrder before) (sorted : Sorted before xs) (k : K) :
    ∃ low here high, Split before xs k low here high := by
  induction xs with
  | nil => exact ⟨[], none, [], rfl, by simp, by simp⟩
  | cons e rest ih =>
    obtain ⟨first, sortedRest⟩ := List.pairwise_cons.mp sorted
    by_cases lt : before e.1 k = true
    · obtain ⟨low, here, high, split⟩ := ih sortedRest
      refine ⟨e :: low, here, high, by rw [split.shape]; rfl, ?_, split.above⟩
      intro x member
      rcases List.mem_cons.mp member with rfl | later
      · exact lt
      · exact split.below x later
    · by_cases same : e.1 = k
      · refine ⟨[], some e.2, rest, by rw [← same]; rfl, by simp, ?_⟩
        exact fun x member => same ▸ first x member
      · have gt : before k e.1 = true := by
          cases back : before k e.1 with
          | true => rfl
          | false => exact absurd (order.connected e.1 k (by simpa using lt) back) same
        refine ⟨[], none, e :: rest, rfl, by simp, ?_⟩
        intro x member
        rcases List.mem_cons.mp member with rfl | later
        · exact gt
        · exact order.trans _ _ _ gt (first x later)

theorem insertIdx_at_length {α : Type*} (front back : List α) (x : α) :
    (front ++ back).insertIdx front.length x = front ++ x :: back := by
  induction front with
  | nil => rfl
  | cons y rest ih => simp [ih]

section Split

variable {low high : List (K × V)} {here : Option V}

omit [DecidableEq K] in
theorem Split.position_eq (order : StrictOrder before) (split : Split before xs k low here high) :
    position before xs k = low.length := by
  simp only [position]
  rw [split.shape]
  apply LowerBound.index_partition split.below
  intro e member
  rcases List.mem_append.mp member with own | later
  · cases here with
    | none => cases own
    | some v =>
      rw [List.mem_singleton.mp own]
      exact order.irrefl k
  · exact order.asymm (split.above e later)

theorem Split.find?_eq (order : StrictOrder before) (split : Split before xs k low here high) :
    find? before xs k = here := by
  simp only [find?]
  rw [split.position_eq order, split.shape]
  cases here with
  | some v => simp
  | none =>
    cases high with
    | nil => simp
    | cons e rest =>
      have distinct : e.1 ≠ k := by
        intro same
        have lt := split.above e (by simp)
        rw [same, order.irrefl k] at lt
        cases lt
      simp [distinct]

omit [DecidableEq K] in
theorem Split.not_low (order : StrictOrder before) (split : Split before xs k low here high) :
    (k, v) ∉ low := by
  intro member
  have lt := split.below _ member
  simp [order.irrefl] at lt

omit [DecidableEq K] in
theorem Split.not_high (order : StrictOrder before) (split : Split before xs k low here high) :
    (k, v) ∉ high := by
  intro member
  have lt := split.above _ member
  simp [order.irrefl] at lt

theorem Split.alter_eq (order : StrictOrder before) (split : Split before xs k low here high)
    (f : Option V → Option V) :
    alter before xs k f = low ++ (((f here).map (k, ·)).toList ++ high) := by
  simp only [alter]
  rw [split.find?_eq order, split.position_eq order, split.shape]
  cases here with
  | some v =>
    cases f (some v) with
    | some w => simp
    | none => simp [List.eraseIdx_append_of_length_le]
  | none =>
    cases f none with
    | some w => simp [insertIdx_at_length]
    | none => simp

end Split

/-- Altering keeps the vector sorted. -/
theorem Sorted.alter (order : StrictOrder before) (sorted : Sorted before xs) (k : K)
    (f : Option V → Option V) : Sorted before (FlatMap.alter before xs k f) := by
  obtain ⟨low, here, high, split⟩ := exists_split order sorted k
  rw [split.alter_eq order]
  simp only [Sorted] at sorted ⊢
  rw [split.shape] at sorted
  obtain ⟨sortedLow, sortedRest, _⟩ := List.pairwise_append.mp sorted
  have sortedHigh := (List.pairwise_append.mp sortedRest).2.1
  refine List.pairwise_append.mpr ⟨sortedLow, List.pairwise_append.mpr ⟨?_, sortedHigh, ?_⟩, ?_⟩
  · cases f here <;> simp
  · intro a own b later
    cases value : f here with
    | none => simp [value] at own
    | some v =>
      simp only [value, Option.map_some, Option.toList_some, List.mem_singleton] at own
      rw [own]
      exact split.above b later
  · intro a lower b member
    rcases List.mem_append.mp member with own | later
    · cases value : f here with
      | none => simp [value] at own
      | some v =>
        simp only [value, Option.map_some, Option.toList_some, List.mem_singleton] at own
        rw [own]
        exact split.below a lower
    · exact order.trans _ _ _ (split.below a lower) (split.above b later)

theorem Sorted.find?_iff (order : StrictOrder before) (sorted : Sorted before xs) :
    find? before xs k = some v ↔ (k, v) ∈ xs := by
  obtain ⟨low, here, high, split⟩ := exists_split order sorted k
  have member : (k, v) ∈ xs ↔ (k, v) ∈ low ++ ((here.map (k, ·)).toList ++ high) := by
    rw [← split.shape]
  rw [split.find?_eq order, member]
  simp only [List.mem_append, split.not_low order, split.not_high order, false_or, or_false]
  cases here <;> simp [eq_comm]

/-- Entries after altering one key. -/
theorem Sorted.mem_alter (order : StrictOrder before) (sorted : Sorted before xs)
    (f : Option V → Option V) :
    (k', v') ∈ FlatMap.alter before xs k f ↔
      if k' = k then f (find? before xs k) = some v' else (k', v') ∈ xs := by
  obtain ⟨low, here, high, split⟩ := exists_split order sorted k
  have member : (k', v') ∈ xs ↔ (k', v') ∈ low ++ ((here.map (k, ·)).toList ++ high) := by
    rw [← split.shape]
  rw [split.alter_eq order, split.find?_eq order, member]
  simp only [List.mem_append]
  split
  · next same =>
    subst same
    simp only [split.not_low order, split.not_high order, false_or, or_false]
    cases f here <;> simp [eq_comm]
  · next distinct =>
    cases here <;> cases f _ <;> simp [distinct]

theorem Sorted.find?_alter (order : StrictOrder before) (sorted : Sorted before xs)
    (f : Option V → Option V) :
    find? before (FlatMap.alter before xs k f) k' =
      if k' = k then f (find? before xs k) else find? before xs k' := by
  apply Option.ext
  intro v
  rw [(sorted.alter order k f).find?_iff order, sorted.mem_alter order]
  split
  · rfl
  · exact (sorted.find?_iff order).symm

omit [DecidableEq K] in
/-- Two flat maps with the same entries are the same vector. -/
theorem Sorted.ext (order : StrictOrder before) {ys : List (K × V)} (first : Sorted before xs)
    (second : Sorted before ys) (same : ∀ e, e ∈ xs ↔ e ∈ ys) : xs = ys := by
  have distinct : ∀ {zs : List (K × V)}, Sorted before zs → zs.Nodup := by
    intro zs sorted
    refine sorted.imp fun {a b} lt equal => ?_
    rw [equal, order.irrefl] at lt
    cases lt
  have perm := (List.perm_ext_iff_of_nodup (distinct first) (distinct second)).mpr same
  refine perm.eq_of_pairwise (fun a b _ _ lt gt => ?_) first second
  rw [order.asymm lt] at gt
  cases gt

omit [DecidableEq K] in
theorem StrictOrder.between (order : StrictOrder before) {a c : K} (lt : before a c = true) (b : K) :
    before a b = true ∨ before b c = true := by
  cases left : before a b with
  | true => exact Or.inl rfl
  | false =>
    refine Or.inr ?_
    cases back : before b a with
    | true => exact order.trans b a c back lt
    | false => rwa [← order.connected a b left back]

omit [DecidableEq K] in
/-- Sorting entries with distinct keys makes a flat map. -/
theorem sorted_mergeSort (order : StrictOrder before) (distinct : (xs.map Prod.fst).Nodup) :
    Sorted before (xs.mergeSort fun a b => !before b.1 a.1) := by
  have weak : (xs.mergeSort fun a b => !before b.1 a.1).Pairwise
      (fun a b => (!before b.1 a.1) = true) := List.pairwise_mergeSort
    (fun a b c first second => by
      simp only [Bool.not_eq_true'] at first second ⊢
      by_contra lt
      rcases order.between (Bool.not_eq_false _ ▸ lt) b.1 with left | right
      · rw [left] at second
        cases second
      · rw [right] at first
        cases first)
    (fun a b => by
      cases lt : before b.1 a.1 with
      | false => rfl
      | true => simp [order.asymm lt]) xs
  have nodup : ((xs.mergeSort fun a b => !before b.1 a.1).map Prod.fst).Nodup :=
    ((List.mergeSort_perm _ _).map Prod.fst).nodup_iff.mpr distinct
  refine weak.imp₂ (fun a b le differ => ?_) (List.pairwise_map.mp nodup)
  simp only [Bool.not_eq_true'] at le
  cases lt : before a.1 b.1 with
  | true => rfl
  | false => exact absurd (order.connected _ _ lt le) differ

end FlatMap
