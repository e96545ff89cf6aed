import Mathlib.Data.List.Basic

/-! Finite runs of a deterministic machine. A run is the left fold of its step
function; `Along` judges every step in the state before it, and the rules below
lift what one step preserves to what every run preserves. -/
namespace Run

variable {S A : Type*} {step : S → A → S} {ok : S → A → Prop}

/-- Every step of the run from `s` meets `ok` in the state it is taken from. -/
def Along (step : S → A → S) (ok : S → A → Prop) : S → List A → Prop
  | _, [] => True
  | s, a :: rest => ok s a ∧ Along step ok (step s a) rest

@[simp] theorem along_nil (s : S) : Along step ok s [] := trivial

@[simp] theorem along_cons (s : S) (a : A) (rest : List A) :
    Along step ok s (a :: rest) ↔ ok s a ∧ Along step ok (step s a) rest := Iff.rfl

instance Along.decidable [∀ s a, Decidable (ok s a)] :
    (s : S) → (xs : List A) → Decidable (Along step ok s xs)
  | _, [] => isTrue trivial
  | s, a :: rest =>
    have := Along.decidable (step s a) rest
    inferInstanceAs (Decidable (ok s a ∧ Along step ok (step s a) rest))

theorem along_append (s : S) (xs ys : List A) :
    Along step ok s (xs ++ ys) ↔ Along step ok s xs ∧ Along step ok (xs.foldl step s) ys := by
  induction xs generalizing s with
  | nil => simp
  | cons a rest ih => simp [ih, and_assoc]

theorem Along.mono {weaker : S → A → Prop} (implied : ∀ s a, ok s a → weaker s a)
    {s : S} {xs : List A} (along : Along step ok s xs) : Along step weaker s xs := by
  induction xs generalizing s with
  | nil => trivial
  | cons a rest ih => exact ⟨implied s a along.1, ih along.2⟩

theorem Along.and {also : S → A → Prop} {s : S} {xs : List A} (along : Along step ok s xs)
    (second : Along step also s xs) : Along step (fun s a => ok s a ∧ also s a) s xs := by
  induction xs generalizing s with
  | nil => trivial
  | cons a rest ih => exact ⟨⟨along.1, second.1⟩, ih along.2 second.2⟩

/-- Obligations that agree at every admissible step are met by the same admissible runs. -/
theorem Along.congr {P Q : S → A → Prop} (same : ∀ s a, ok s a → (P s a ↔ Q s a))
    {s : S} {xs : List A} (along : Along step ok s xs) :
    Along step P s xs ↔ Along step Q s xs := by
  induction xs generalizing s with
  | nil => exact Iff.rfl
  | cons a rest ih => exact and_congr (same s a along.1) (ih along.2)

/-- Obligations that agree while an invariant holds, which one of them keeps, are met by the
same admissible runs. -/
theorem Along.congr_of_invariant {I : S → Prop} {P Q : S → A → Prop}
    (same : ∀ s a, I s → ok s a → (P s a ↔ Q s a))
    (keep : ∀ s a, I s → ok s a → P s a → I (step s a))
    {s : S} {xs : List A} (along : Along step ok s xs) (start : I s) :
    Along step P s xs ↔ Along step Q s xs := by
  induction xs generalizing s with
  | nil => exact Iff.rfl
  | cons a rest ih =>
    have here := same s a start along.1
    constructor
    · intro met
      exact ⟨here.mp met.1, (ih along.2 (keep s a start along.1 met.1)).mp met.2⟩
    · intro met
      have first := here.mpr met.1
      exact ⟨first, (ih along.2 (keep s a start along.1 first)).mpr met.2⟩

/-- An invariant that one step keeps exactly under `Q` holds all along the runs that meet `Q`. -/
theorem Along.after_iff {P : S → Prop} {Q : S → A → Prop}
    (exact : ∀ s a, P s → ok s a → (P (step s a) ↔ Q s a)) {s : S} {xs : List A}
    (along : Along step ok s xs) (start : P s) :
    Along step (fun s a => P (step s a)) s xs ↔ Along step Q s xs := by
  induction xs generalizing s with
  | nil => exact Iff.rfl
  | cons a rest ih =>
    constructor
    · intro kept
      exact ⟨(exact s a start along.1).mp kept.1, (ih along.2 kept.1).mp kept.2⟩
    · intro met
      have next := (exact s a start along.1).mpr met.1
      exact ⟨next, (ih along.2 next).mpr met.2⟩

/-- An obligation that only looks at the letter is checked on the list alone. -/
theorem along_of_forall {Q : A → Prop} (s : S) (xs : List A)
    (all : ∀ a ∈ xs, Q a) : Along step (fun _ a => Q a) s xs := by
  induction xs generalizing s with
  | nil => trivial
  | cons a rest ih =>
    exact ⟨all a (by simp), ih _ (fun b member => all b (by simp [member]))⟩

/-- Invariant rule with the history of the run as a ghost argument. -/
theorem Along.history {P : List A → S → Prop}
    (keep : ∀ past s a, P past s → ok s a → P (past ++ [a]) (step s a))
    (past : List A) {s : S} {xs : List A} (along : Along step ok s xs) (start : P past s) :
    P (past ++ xs) (xs.foldl step s) := by
  induction xs generalizing past s with
  | nil => simpa using start
  | cons a rest ih =>
    have next := ih (past ++ [a]) along.2 (keep past s a start along.1)
    simpa using next

/-- Invariant rule: what one admissible step preserves, an admissible run preserves. -/
theorem Along.invariant {P : S → Prop} (keep : ∀ s a, P s → ok s a → P (step s a))
    {s : S} {xs : List A} (along : Along step ok s xs) (start : P s) : P (xs.foldl step s) :=
  Along.history (P := fun _ => P) (fun _ => keep) [] along start

/-- Invariant rule for runs without an obligation on the steps. -/
theorem invariant {P : S → Prop} (keep : ∀ s a, P s → P (step s a))
    {s : S} (xs : List A) (start : P s) : P (xs.foldl step s) :=
  (along_of_forall (Q := fun _ => True) s xs (fun _ _ => trivial)).invariant
    (fun s a holds _ => keep s a holds) start

/-- Simulation rule: a relation that one admissible step keeps relates the ends of two runs
over the same letters. -/
theorem Along.simulation {T : Type*} {other : T → A → T} {R : S → T → Prop}
    (keep : ∀ s t a, R s t → ok s a → R (step s a) (other t a)) {s : S} {t : T} {xs : List A}
    (along : Along step ok s xs) (start : R s t) : R (xs.foldl step s) (xs.foldl other t) := by
  induction xs generalizing s t with
  | nil => exact start
  | cons a rest ih => exact ih along.2 (keep s t a start along.1)

/-- The obligation holds at the step that follows any initial part of the run. -/
theorem Along.at_step {s : S} {before after : List A} {a : A}
    (along : Along step ok s (before ++ a :: after)) : ok (before.foldl step s) a :=
  ((along_append s before (a :: after)).mp along).2.1

end Run
