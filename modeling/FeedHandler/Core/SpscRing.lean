import Mathlib.Data.Nat.Bitwise
import Mathlib.Data.Nat.ModEq
import Mathlib.Logic.Function.Basic

/-! The single-producer single-consumer ring, each call taken as one atomic step.
The indices are kept below the size by their type; `Queued` is the queue that a
ring stands for, and each call is described by what it does to that queue. -/
namespace FeedHandler

/-- The size is a power of two, as the source asserts. -/
structure SpscRing (α : Type*) (bits : Nat) where
  head : Fin (2 ^ bits)
  tail : Fin (2 ^ bits)
  buffer : Fin (2 ^ bits) → α

namespace SpscRing

variable {α : Type*} {bits : Nat}

def mask (bits : Nat) : Nat := 2 ^ bits - 1

/-- The index after `i`, masked. -/
def following (i : Fin (2 ^ bits)) : Fin (2 ^ bits) :=
  ⟨(i.val + 1) &&& mask bits, by
    rw [mask, Nat.and_two_pow_sub_one_eq_mod]
    exact Nat.mod_lt _ (Nat.two_pow_pos bits)⟩

def create (initial : α) : SpscRing α bits where
  head := ⟨0, Nat.two_pow_pos bits⟩
  tail := ⟨0, Nat.two_pow_pos bits⟩
  buffer := fun _ => initial

/-- `none` when the ring is full; one slot always stays free. -/
def tryPush (r : SpscRing α bits) (item : α) : Option (SpscRing α bits) :=
  let next := following r.head
  if next = r.tail then none
  else some { r with buffer := Function.update r.buffer r.head item, head := next }

def tryPop (r : SpscRing α bits) : Option (α × SpscRing α bits) :=
  if r.tail = r.head then none
  else some (r.buffer r.tail, { r with tail := following r.tail })

/-- The slot `k` places behind an index. -/
def slot (bits k : Nat) : Fin (2 ^ bits) := ⟨k % 2 ^ bits, Nat.mod_lt _ (Nat.two_pow_pos bits)⟩

/-- The ring stands for the queue `xs`, oldest item first. -/
structure Queued (r : SpscRing α bits) (xs : List α) : Prop where
  room : xs.length < 2 ^ bits
  head : r.head = slot bits (r.tail.val + xs.length)
  items : ∀ k x, xs[k]? = some x → r.buffer (slot bits (r.tail.val + k)) = x

variable {r : SpscRing α bits} {xs : List α} {x : α}

@[simp] theorem following_slot (k : Nat) : following (slot bits k) = slot bits (k + 1) := by
  apply Fin.ext
  simp only [following, slot, mask, Nat.and_two_pow_sub_one_eq_mod, Nat.mod_add_mod]

theorem slot_val (i : Fin (2 ^ bits)) : slot bits i.val = i := Fin.ext (Nat.mod_eq_of_lt i.isLt)

/-- Two offsets below the size reach the same slot only if they are equal. -/
theorem slot_inj {base j k : Nat} (left : j < 2 ^ bits) (right : k < 2 ^ bits)
    (same : slot bits (base + j) = slot bits (base + k)) : j = k := by
  have residues : Nat.ModEq (2 ^ bits) (base + j) (base + k) := Fin.ext_iff.mp same
  have offsets : Nat.ModEq (2 ^ bits) j k := Nat.ModEq.add_left_cancel' base residues
  exact Nat.ModEq.eq_of_lt_of_lt offsets left right

theorem create_queued (initial : α) : Queued (create initial : SpscRing α bits) [] where
  room := Nat.two_pow_pos bits
  head := (slot_val _).symm
  items := by simp

theorem Queued.head_inside (queued : r.Queued xs) {k : Nat} (inside : k < xs.length) :
    slot bits (r.tail.val + k) ≠ r.head := by
  intro same
  rw [queued.head] at same
  have := slot_inj (inside.trans queued.room) queued.room same
  omega

/-- A push is refused exactly when one more item would fill the last free slot. -/
theorem Queued.tryPush_none (queued : r.Queued xs) (item : α) :
    r.tryPush item = none ↔ xs.length + 1 = 2 ^ bits := by
  have room := queued.room
  have next : following r.head = slot bits (r.tail.val + (xs.length + 1)) := by
    rw [queued.head, following_slot]
    rfl
  simp only [tryPush, next, ite_eq_left_iff, reduceCtorEq, imp_false, not_not]
  constructor
  · intro wrapped
    by_contra short
    have start : slot bits (r.tail.val + (xs.length + 1)) = slot bits (r.tail.val + 0) :=
      wrapped.trans (slot_val r.tail).symm
    have := slot_inj (by omega) (by omega) start
    omega
  · intro full
    rw [full]
    apply Fin.ext
    simp only [slot, Nat.add_mod_right]
    exact Nat.mod_eq_of_lt r.tail.isLt

theorem Queued.tryPush_some (queued : r.Queued xs) {item : α} {r' : SpscRing α bits}
    (pushed : r.tryPush item = some r') : r'.Queued (xs ++ [item]) := by
  have free : ¬ xs.length + 1 = 2 ^ bits := by
    intro full
    rw [(queued.tryPush_none item).mpr full] at pushed
    contradiction
  have room := queued.room
  simp only [tryPush] at pushed
  split at pushed
  · contradiction
  · cases pushed
    constructor
    · rw [List.length_append, List.length_singleton]
      omega
    · simp only [List.length_append, List.length_singleton]
      rw [queued.head, following_slot]
      rfl
    · intro k x found
      simp only
      by_cases old : k < xs.length
      · rw [Function.update_of_ne (queued.head_inside old)]
        rw [List.getElem?_append_left old] at found
        exact queued.items k x found
      · rw [List.getElem?_append_right (by omega), List.getElem?_singleton] at found
        split at found
        · next last =>
          have here : k = xs.length := by omega
          cases found
          rw [here, ← queued.head, Function.update_self]
        · contradiction

theorem Queued.tryPop_nil (queued : r.Queued []) : r.tryPop = none := by
  have empty : r.tail = r.head := by
    rw [queued.head]
    exact (slot_val _).symm
  simp only [tryPop, empty, if_true]

theorem Queued.tryPop_cons (queued : r.Queued (x :: xs)) :
    ∃ r', r.tryPop = some (x, r') ∧ r'.Queued xs := by
  have apart : r.tail ≠ r.head := by
    have front := queued.head_inside (k := 0) (by simp)
    rwa [Nat.add_zero, slot_val] at front
  have front : r.buffer r.tail = x := by
    have item := queued.items 0 x rfl
    rwa [Nat.add_zero, slot_val] at item
  have shifted : ∀ k, slot bits ((following r.tail).val + k) = slot bits (r.tail.val + (k + 1)) := by
    intro k
    have next : following r.tail = slot bits (r.tail.val + 1) := by
      rw [← following_slot, slot_val]
    rw [next]
    apply Fin.ext
    simp only [slot, Nat.mod_add_mod, Nat.add_assoc, Nat.add_comm 1 k]
  refine ⟨{ r with tail := following r.tail }, ?_, ?_⟩
  · simp only [tryPop, apart, if_false, front]
  · constructor
    · exact Nat.lt_of_succ_lt queued.room
    · rw [shifted]
      exact queued.head
    · intro k y found
      rw [shifted]
      exact queued.items (k + 1) y found

end SpscRing
end FeedHandler
