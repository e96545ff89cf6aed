import Mathlib.Data.List.Basic
import Mathlib.Algebra.Order.Group.Nat

/-! Records behind a header of fixed width that announces the size of the body, or that ends
the run. Every string is in one way a run of whole records and behind them a rest in which no
record is whole; a loop that takes one record after another is a fold over them. -/
namespace HeadedRecords

/-- The width of a header, and the size of the body that a header announces. -/
structure Layout (α : Type*) where
  width : Nat
  size : List α → Option Nat
  wide : 0 < width

variable {α σ τ : Type*} {f : Layout α}

/-- A header with the body that it announces. -/
structure Record (f : Layout α) where
  header : List α
  body : List α
  header_length : header.length = f.width
  announced : f.size header = some body.length

def Record.whole (r : Record f) : List α := r.header ++ r.body

/-- The string ends within a header or within the body that it announces, or begins with a
header that ends the run. -/
def Stuck (f : Layout α) (items : List α) : Prop :=
  items.length < f.width ∨
    ∀ n, f.size (items.take f.width) = some n → items.length < f.width + n

/-- The string is the records and behind them the rest. -/
inductive Splits (f : Layout α) : List α → List (Record f) → List α → Prop where
  | stuck {items} (stuck : Stuck f items) : Splits f items [] items
  | record (r : Record f) {later records rest} (behind : Splits f later records rest) :
      Splits f (r.whole ++ later) (r :: records) rest

variable {items later rest : List α} {records : List (Record f)}

theorem Record.length_whole (r : Record f) : r.whole.length = f.width + r.body.length := by
  rw [whole, List.length_append, r.header_length]

theorem Record.take_header (r : Record f) (later : List α) :
    (r.whole ++ later).take f.width = r.header := by
  rw [whole, List.append_assoc, List.take_left' r.header_length]

theorem Record.drop_header (r : Record f) (later : List α) :
    (r.whole ++ later).drop f.width = r.body ++ later := by
  rw [whole, List.append_assoc, List.drop_left' r.header_length]

theorem Record.drop_whole (r : Record f) (later : List α) :
    (r.whole ++ later).drop (f.width + r.body.length) = later :=
  List.drop_left' r.length_whole

/-- Where a record is whole it can be taken off. -/
theorem exists_record (whole : ¬ Stuck f items) : ∃ (r : Record f) (later : List α),
    items = r.whole ++ later := by
  obtain ⟨long, announces⟩ := not_or.mp whole
  obtain ⟨n, announced, inside⟩ : ∃ n, f.size (items.take f.width) = some n ∧
      f.width + n ≤ items.length := by
    simpa only [not_forall, not_lt, exists_prop] using announces
  have size : ((items.drop f.width).take n).length = n := by
    rw [List.length_take, List.length_drop]
    omega
  refine ⟨⟨items.take f.width, (items.drop f.width).take n, List.length_take_of_le (not_lt.mp long),
    by rw [size]; exact announced⟩, items.drop (f.width + n), ?_⟩
  rw [Record.whole, List.append_assoc, ← List.drop_drop, List.take_append_drop,
    List.take_append_drop]

theorem exists_splits (f : Layout α) (items : List α) :
    ∃ records rest, Splits f items records rest := by
  by_cases stuck : Stuck f items
  · exact ⟨[], items, .stuck stuck⟩
  · obtain ⟨r, later, same⟩ := exists_record stuck
    have shorter : later.length < items.length := by
      rw [same, List.length_append, r.length_whole]
      have := f.wide
      omega
    obtain ⟨records, rest, behind⟩ := exists_splits f later
    exact ⟨r :: records, rest, same ▸ .record r behind⟩
termination_by items.length

theorem Splits.joined (split : Splits f items records rest) :
    items = records.flatMap Record.whole ++ rest := by
  induction split with
  | stuck => rfl
  | record r behind ih => rw [List.flatMap_cons, List.append_assoc, ← ih]

/-- A cut in front of the end of a record leaves nothing whole. -/
theorem Stuck.take_record (r : Record f) {n : Nat} (cut : n < r.whole.length) :
    Stuck f ((r.whole ++ later).take n) := by
  rw [r.length_whole] at cut
  have size := List.length_take_le n (r.whole ++ later)
  by_cases short : n < f.width
  · exact .inl (size.trans_lt short)
  · refine .inr fun m announced => ?_
    rw [List.take_take, Nat.min_eq_left (not_lt.mp short), r.take_header, r.announced] at announced
    cases announced
    omega

theorem Stuck.take (stuck : Stuck f items) (n : Nat) : Stuck f (items.take n) := by
  have size := List.length_take_le' n items
  rcases stuck with short | cut
  · exact .inl (size.trans_lt short)
  · by_cases short : (items.take n).length < f.width
    · exact .inl short
    · have header : f.width ≤ n := (not_lt.mp short).trans (List.length_take_le n items)
      refine .inr fun m announced => size.trans_lt (cut m ?_)
      rwa [List.take_take, Nat.min_eq_left header] at announced

/-- What is whole in a cut string is an initial part of what is whole in the string; the next
record lies across the cut. -/
theorem Splits.take (split : Splits f items records rest) (n : Nat) :
    ∃ k left, Splits f (items.take n) (records.take k) left ∧
      (k < records.length → n < ((records.take (k + 1)).flatMap Record.whole).length) := by
  induction split generalizing n with
  | stuck stuck => exact ⟨0, _, .stuck (stuck.take n), nofun⟩
  | record r behind ih =>
    by_cases cut : n < r.whole.length
    · refine ⟨0, _, .stuck (Stuck.take_record r cut), fun _ => ?_⟩
      rw [List.take_succ_cons, List.flatMap_cons, List.length_append]
      exact Nat.lt_add_right _ cut
    · obtain ⟨k, left, inside, across⟩ := ih (n - r.whole.length)
      refine ⟨k + 1, left, ?_, fun more => ?_⟩
      · rw [List.take_append, List.take_of_length_le (not_lt.mp cut)]
        exact .record r inside
      · have := across (Nat.lt_of_succ_lt_succ more)
        rw [List.take_succ_cons, List.flatMap_cons, List.length_append]
        omega

/-- The records of a string that nothing follows. -/
theorem splits_flatMap (records : List (Record f)) :
    Splits f (records.flatMap Record.whole) records [] := by
  induction records with
  | nil => exact .stuck (.inl f.wide)
  | cons r records ih => exact .record r ih

/-- The loop rule: a loop that takes a whole record off with every turn, and ends where none is
left, is a fold over the records. -/
theorem Splits.loop (loop : Nat → List α → σ → τ) (step : σ → Record f → σ)
    (finish : List α → σ → τ)
    (stops : ∀ fuel items s, Stuck f items → loop (fuel + 1) items s = finish items s)
    (steps : ∀ fuel r later s, loop (fuel + 1) (r.whole ++ later) s = loop fuel later (step s r))
    (split : Splits f items records rest) {fuel : Nat} (enough : items.length < fuel) (s : σ) :
    loop fuel items s = finish rest (records.foldl step s) := by
  induction split generalizing fuel s with
  | stuck stuck =>
    obtain ⟨fuel, rfl⟩ := Nat.exists_eq_add_one.mpr (Nat.zero_lt_of_lt enough)
    exact stops fuel _ s stuck
  | record r behind ih =>
    obtain ⟨fuel, rfl⟩ := Nat.exists_eq_add_one.mpr (Nat.zero_lt_of_lt enough)
    rw [steps, List.foldl_cons]
    apply ih
    rw [List.length_append, r.length_whole] at enough
    have := f.wide
    omega

end HeadedRecords
