import Mathlib.Data.List.Infix

/-! Searching a text for a pattern. A position in the text is what stands from there on.
Pieces of the text in which no match starts are skipped whole, whatever follows them. -/
namespace TextSearch

/-- The text from the first match on. -/
def find (pattern : List Char) : List Char → Option (List Char)
  | [] => if pattern = [] then some [] else none
  | c :: text => if pattern.isPrefixOf (c :: text) then some (c :: text) else find pattern text

/-- Some character of the pattern differs from the one that stands in its place. -/
def differs : List Char → List Char → Bool
  | p :: pattern, c :: text => p != c || differs pattern text
  | _, _ => false

/-- No match starts in the piece. -/
def clear (pattern : List Char) : List Char → Bool
  | [] => true
  | c :: piece => differs pattern (c :: piece) && clear pattern piece

section Search

variable {pattern piece text : List Char}

theorem differs_append (apart : differs pattern piece = true) (rest : List Char) :
    differs pattern (piece ++ rest) = true := by
  induction pattern generalizing piece with
  | nil => simp [differs] at apart
  | cons p pattern ih =>
    cases piece with
    | nil => simp [differs] at apart
    | cons c piece =>
      simp only [differs, Bool.or_eq_true] at apart
      simp only [List.cons_append, differs, Bool.or_eq_true]
      exact apart.imp_right ih

theorem isPrefixOf_eq_false (apart : differs pattern text = true) :
    pattern.isPrefixOf text = false := by
  induction pattern generalizing text with
  | nil => simp [differs] at apart
  | cons p pattern ih =>
    cases text with
    | nil => rfl
    | cons c text =>
      simp only [differs, Bool.or_eq_true, bne_iff_ne] at apart
      rw [List.isPrefixOf_cons_cons, Bool.and_eq_false_iff]
      exact apart.imp beq_false_of_ne ih

theorem find_clear (nothing : clear pattern piece = true) (rest : List Char) :
    find pattern (piece ++ rest) = find pattern rest := by
  induction piece with
  | nil => rfl
  | cons c piece ih =>
    rw [clear, Bool.and_eq_true] at nothing
    rw [List.cons_append, find, ← List.cons_append,
      isPrefixOf_eq_false (differs_append nothing.1 rest), if_neg Bool.false_ne_true, ih nothing.2]

/-- A piece without the first character of the pattern is clear of it. -/
theorem clear_of_not_mem {first : Char} (absent : first ∉ piece) :
    clear (first :: pattern) piece = true := by
  induction piece with
  | nil => rfl
  | cons c piece ih =>
    rw [List.mem_cons, not_or] at absent
    simp [clear, differs, absent.1, ih absent.2]

theorem clear_append (first : clear pattern piece = true) (last : clear pattern text = true) :
    clear pattern (piece ++ text) = true := by
  induction piece with
  | nil => exact last
  | cons c piece ih =>
    rw [clear, Bool.and_eq_true] at first
    simp only [List.cons_append, clear, Bool.and_eq_true]
    exact ⟨differs_append first.1 text, ih first.2⟩

/-- Words closed by the same character differ unless they are the same. -/
theorem differs_closed (close : Char) {word : List Char} (outside : close ∉ word)
    (unclosed : close ∉ piece) (other : piece ≠ word) (rest : List Char) :
    differs (word ++ [close]) (piece ++ close :: rest) = true := by
  induction word generalizing piece with
  | nil =>
    cases piece with
    | nil => contradiction
    | cons c piece =>
      rw [List.mem_cons, not_or] at unclosed
      simp [differs, unclosed.1]
  | cons w word ih =>
    rw [List.mem_cons, not_or] at outside
    cases piece with
    | nil => simp [differs, Ne.symm outside.1]
    | cons c piece =>
      rw [List.mem_cons, not_or] at unclosed
      simp only [List.cons_append, differs, Bool.or_eq_true, bne_iff_ne]
      by_cases same : w = c
      · subst same
        exact Or.inr (ih outside.2 unclosed.2 fun equal => other (by rw [equal]))
      · exact Or.inl same

/-- A single character is found where it first stands. -/
theorem find_char {c : Char} (listed : c ∈ text) :
    find [c] text = some (text.dropWhile (· != c)) := by
  induction text with
  | nil => contradiction
  | cons d text ih =>
    by_cases here : d = c
    · simp [find, List.isPrefixOf, here]
    · have later : c ∈ text := (List.mem_cons.mp listed).resolve_left (Ne.symm here)
      simp [find, List.isPrefixOf, here, Ne.symm here, ih later]

/-- The text up to where the search stopped. -/
theorem take_sub_dropWhile (keeps : Char → Bool) (text : List Char) :
    text.take (text.length - (text.dropWhile keeps).length) = text.takeWhile keeps := by
  have split := List.takeWhile_append_dropWhile (p := keeps) (l := text)
  have sizes := congrArg List.length split
  rw [List.length_append] at sizes
  have room : text.length - (text.dropWhile keeps).length = (text.takeWhile keeps).length := by
    omega
  rw [room]
  exact (List.prefix_iff_eq_take.mp (List.takeWhile_prefix keeps)).symm

theorem find_match (pattern rest : List Char) :
    find pattern (pattern ++ rest) = some (pattern ++ rest) := by
  have here : pattern.isPrefixOf (pattern ++ rest) = true := by simp
  cases whole : pattern ++ rest with
  | nil => rw [find, if_pos (List.append_eq_nil_iff.mp whole).1]
  | cons c text => rw [find, ← whole, if_pos here]

/-- What is found is the end of the text and starts with the pattern. -/
theorem find_some {found : List Char} (hit : find pattern text = some found) :
    found <:+ text ∧ pattern <+: found := by
  induction text with
  | nil =>
    rw [find] at hit
    split at hit
    case isTrue empty =>
      obtain rfl := Option.some.inj hit
      rw [empty]
      exact ⟨List.suffix_rfl, List.prefix_rfl⟩
    case isFalse => contradiction
  | cons c text ih =>
    rw [find] at hit
    split at hit
    case isTrue here =>
      obtain rfl := Option.some.inj hit
      exact ⟨List.suffix_rfl, List.isPrefixOf_iff_prefix.mp here⟩
    case isFalse =>
      obtain ⟨ends, starts⟩ := ih hit
      exact ⟨ends.trans (List.suffix_cons c text), starts⟩

end Search

end TextSearch
