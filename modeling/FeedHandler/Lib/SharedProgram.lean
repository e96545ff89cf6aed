import Mathlib.Logic.Basic

/-! Programs over a shared memory, one atomic load or store at a time, and two judgments for
them under interference. A program that only loads is judged against every memory that the
others can leave between two of its loads; a program whose steps the others rely on is
judged step by step. Both are kept by any interleaving, by construction. -/
namespace SharedProgram

variable {M : Type} {α β : Type}

inductive Prog (M : Type) (β : Type) : Type 1 where
  | done (result : β)
  | load {X : Type} (get : M → X) (next : X → Prog M β)
  | store (put : M → M) (next : Prog M β)

namespace Prog

/-- Run `p`, then what its result selects. -/
def bind : Prog M α → (α → Prog M β) → Prog M β
  | done result, next => next result
  | load get rest, next => load get fun x => (rest x).bind next
  | store put rest, next => store put (rest.bind next)

/-- One atomic access. -/
def step : Prog M β → M → Prog M β × M
  | done result, m => (done result, m)
  | load get next, m => (next (get m), m)
  | store put next, m => (next, put m)

/-- The whole program without interference. -/
def exec : Prog M β → M → β × M
  | done result, m => (result, m)
  | load get next, m => (next (get m)).exec m
  | store put next, m => next.exec (put m)

@[simp] theorem exec_done (result : β) (m : M) : (done result : Prog M β).exec m = (result, m) := rfl

@[simp] theorem exec_load {X : Type} (get : M → X) (next : X → Prog M β) (m : M) :
    (load get next).exec m = (next (get m)).exec m := rfl

@[simp] theorem exec_store (put : M → M) (next : Prog M β) (m : M) :
    (store put next).exec m = next.exec (put m) := rfl

@[simp] theorem exec_bind (p : Prog M α) (next : α → Prog M β) (m : M) :
    (p.bind next).exec m = (next (p.exec m).1).exec (p.exec m).2 := by
  induction p generalizing m with
  | done result => rfl
  | load get rest ih => exact ih (get m) m
  | store put rest ih => exact ih (put m)

/-- `rely a b`: the others can turn memory `a` into `b` between two accesses. -/
structure Interference (rely : M → M → Prop) : Prop where
  trans : ∀ a b c, rely a b → rely b c → rely a c
  settled : ∀ a b, rely a b → rely b b

section Judgments

variable {rely : M → M → Prop} {post weaker : β → M → Prop} {m m' : M} {p : Prog M β}

/-- `p` only loads, and whatever the memory becomes before each of its steps, it ends as
`post` says. -/
def Ensures (rely : M → M → Prop) (post : β → M → Prop) : Prog M β → M → Prop
  | done result, m => ∀ m', rely m m' → post result m'
  | load get next, m => ∀ m', rely m m' → (next (get m')).Ensures rely post m'
  | store _ _, _ => False

/-- Every store of `p` is a change the others can rely on, and it ends as `post` says when
nobody else stores. -/
def Guarantees (rely : M → M → Prop) (post : β → M → Prop) : Prog M β → M → Prop
  | done result, m => post result m
  | load get next, m => (next (get m)).Guarantees rely post m
  | store put next, m => rely m (put m) ∧ next.Guarantees rely post (put m)

/-- What a program ensures is not disturbed by the others. -/
theorem Ensures.stable (others : Interference rely) (ensured : p.Ensures rely post m)
    (moved : rely m m') : p.Ensures rely post m' := by
  cases p with
  | done result => exact fun last later => ensured last (others.trans _ _ _ moved later)
  | load get next => exact fun last later => ensured last (others.trans _ _ _ moved later)
  | store put next => exact ensured.elim

/-- A step of its own leaves the memory alone. -/
theorem Ensures.step (here : rely m m) (ensured : p.Ensures rely post m) :
    (p.step m).2 = m ∧ (p.step m).1.Ensures rely post m := by
  cases p with
  | done result => exact ⟨rfl, ensured⟩
  | load get next => exact ⟨rfl, ensured m here⟩
  | store put next => exact ensured.elim

theorem Ensures.weaken (implied : ∀ result m, post result m → weaker result m)
    (ensured : p.Ensures rely post m) : p.Ensures rely weaker m := by
  induction p generalizing m with
  | done result => exact fun last moved => implied result last (ensured last moved)
  | load get next ih => exact fun last moved => ih (get last) (ensured last moved)
  | store put next => exact ensured.elim

/-- The rule of composition. -/
theorem Ensures.bind {q : Prog M α} {next : α → Prog M β} {middle : α → M → Prop}
    (others : Interference rely) (here : rely m m) (first : q.Ensures rely middle m)
    (second : ∀ result m', rely m m' → middle result m' → (next result).Ensures rely post m') :
    (q.bind next).Ensures rely post m := by
  induction q generalizing m with
  | done result => exact second result m here (first m here)
  | load get rest ih =>
    intro m' moved
    exact ih (get m') (others.settled _ _ moved) (first m' moved)
      (fun result last later => second result last (others.trans _ _ _ moved later))
  | store put rest => exact first.elim

/-- A step of a program that guarantees its changes. -/
theorem Guarantees.step (here : rely m m) (guaranteed : p.Guarantees rely post m) :
    rely m (p.step m).2 ∧ (p.step m).1.Guarantees rely post (p.step m).2 := by
  cases p with
  | done result => exact ⟨here, guaranteed⟩
  | load get next => exact ⟨here, guaranteed⟩
  | store put next => exact guaranteed

/-- The rule of composition. -/
theorem Guarantees.bind {q : Prog M α} {next : α → Prog M β} {middle : α → M → Prop}
    (first : q.Guarantees rely middle m)
    (second : ∀ result m', middle result m' → (next result).Guarantees rely post m') :
    (q.bind next).Guarantees rely post m := by
  induction q generalizing m with
  | done result => exact second result m first
  | load get rest ih => exact ih (get m) first
  | store put rest ih => exact ⟨first.1, ih first.2⟩

end Judgments

end Prog
end SharedProgram
