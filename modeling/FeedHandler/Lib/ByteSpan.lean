import Mathlib.Data.List.Basic

/-! Views into a byte string. A view lies within the string by construction; parts of it
and reads from it are partial, so a computation that has a result has left no view. -/

/-- `size` bytes of a byte string from `start` on. -/
structure ByteSpan (whole : List UInt8) where
  start : Nat
  size : Nat
  inside : start + size ≤ whole.length

namespace ByteSpan

/-- The view of everything. -/
def full (whole : List UInt8) : ByteSpan whole := ⟨0, whole.length, by omega⟩

variable {whole : List UInt8} (span : ByteSpan whole)

def bytes : List UInt8 := (whole.drop span.start).take span.size

def subspan (offset count : Nat) : Option (ByteSpan whole) :=
  if fits : offset + count ≤ span.size then
    some ⟨span.start + offset, count, by have := span.inside; omega⟩
  else none

/-- The bytes that a copy of `n` bytes reads. -/
def load (offset n : Nat) : Option (List UInt8) :=
  if offset + n ≤ span.size then some ((whole.drop (span.start + offset)).take n) else none

def byteAt (i : Nat) : Option UInt8 := if i < span.size then whole[span.start + i]? else none

@[simp] theorem length_bytes : span.bytes.length = span.size := by
  have inside := span.inside
  rw [bytes, List.length_take, List.length_drop]
  omega

@[simp] theorem bytes_full : (full whole).bytes = whole := by
  rw [bytes, full, List.drop_zero, List.take_length]

theorem bytes_part {offset count : Nat} (fits : offset + count ≤ span.size) :
    (span.bytes.drop offset).take count = (whole.drop (span.start + offset)).take count := by
  rw [bytes, List.drop_take, List.drop_drop, List.take_take, Nat.min_eq_left (by omega)]

/-- A part that fits its view exists and shows that part of the bytes. -/
theorem subspan_eq {offset count : Nat} (fits : offset + count ≤ span.size) :
    ∃ part, span.subspan offset count = some part ∧
      part.bytes = (span.bytes.drop offset).take count := by
  refine ⟨_, dif_pos fits, ?_⟩
  rw [bytes_part span fits]
  rfl

theorem load_eq {offset n : Nat} (fits : offset + n ≤ span.size) :
    span.load offset n = some ((span.bytes.drop offset).take n) := by
  rw [load, if_pos fits, bytes_part span fits]

theorem byteAt_eq {i : Nat} (fits : i < span.size) :
    span.byteAt i = some (span.bytes.getD i 0) := by
  have inside := span.inside
  rw [byteAt, if_pos fits, bytes, List.getD_eq_getElem?_getD, List.getElem?_take_of_lt fits,
    List.getElem?_drop, List.getElem?_eq_getElem (by omega), Option.getD_some]

end ByteSpan
