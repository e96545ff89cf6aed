import FeedHandler.Lib.DecimalText

/-! Tokens of a text with white space before them. A token ends where none of its characters
follows, so that what stands behind it is settled by the text alone. -/
namespace TextTokens

open DecimalText

/-- A single character behind white space, and the text that remains. -/
def Mark (blank : Char → Bool) (mark : Char) (input rest : List Char) : Prop :=
  ∃ space, (∀ c ∈ space, blank c = true) ∧ input = space ++ mark :: rest

/-- A run of one kind of character, with a minus sign or without. -/
def SignedRun (keeps : Char → Bool) (text : List Char) : Prop :=
  ∃ run, run ≠ [] ∧ (∀ c ∈ run, keeps c = true) ∧ (text = run ∨ text = '-' :: run)

/-- A signed run behind white space, taken as far as it goes, and the text that remains. -/
def Run (blank keeps : Char → Bool) (input text rest : List Char) : Prop :=
  ∃ space, (∀ c ∈ space, blank c = true) ∧ input = space ++ (text ++ rest) ∧
    SignedRun keeps text ∧ ∀ c ∈ rest.head?, keeps c = false

/-- A minus sign if there is one, the run behind it, and the text that remains. -/
def scanRun (keeps : Char → Bool) : List Char → List Char × List Char
  | '-' :: input => ('-' :: input.takeWhile keeps, input.dropWhile keeps)
  | input => (input.takeWhile keeps, input.dropWhile keeps)

section Blank

variable {blank : Char → Bool}

theorem head_dropWhile (keeps : Char → Bool) (input : List Char) :
    ∀ c ∈ (input.dropWhile keeps).head?, keeps c = false := by
  intro c first
  have stopped := List.head?_dropWhile_not keeps input
  rw [Option.mem_def.mp first] at stopped
  simpa using stopped

theorem mark_iff {mark : Char} (solid : blank mark = false) {input rest : List Char} :
    Mark blank mark input rest ↔ input.dropWhile blank = mark :: rest := by
  constructor
  · rintro ⟨space, all, rfl⟩
    exact dropWhile_run all fun c first => by rwa [← Option.some.inj first]
  · intro same
    refine ⟨input.takeWhile blank, fun c listed => List.mem_takeWhile_imp listed, ?_⟩
    rw [← same, List.takeWhile_append_dropWhile]

theorem Mark.shorter {mark : Char} {input rest : List Char} (read : Mark blank mark input rest) :
    rest.length < input.length := by
  obtain ⟨space, -, rfl⟩ := read
  simp only [List.length_append, List.length_cons]
  omega

/-- What a mark leaves is settled. -/
theorem Mark.unique {mark other : Char} (solid : blank mark = false)
    (other_solid : blank other = false) {input rest behind : List Char}
    (first : Mark blank mark input rest) (second : Mark blank other input behind) :
    mark = other ∧ rest = behind := by
  rw [mark_iff solid] at first
  rw [mark_iff other_solid, first] at second
  exact List.cons.inj second

end Blank

section Runs

variable {blank keeps : Char → Bool} {input text rest : List Char}

theorem scanRun_plain (unsigned : input.head? ≠ some '-') :
    scanRun keeps input = (input.takeWhile keeps, input.dropWhile keeps) := by
  unfold scanRun
  split
  · exact absurd rfl unsigned
  · rfl

theorem scanRun_append (input : List Char) :
    (scanRun keeps input).1 ++ (scanRun keeps input).2 = input := by
  unfold scanRun
  split
  · exact congrArg (List.cons '-') List.takeWhile_append_dropWhile
  · exact List.takeWhile_append_dropWhile

theorem head_scanRun (input : List Char) :
    ∀ c ∈ (scanRun keeps input).2.head?, keeps c = false := by
  unfold scanRun
  split
  · exact head_dropWhile keeps _
  · exact head_dropWhile keeps _

theorem SignedRun.nonempty (signed : SignedRun keeps text) : text ≠ [] := by
  obtain ⟨run, nonempty, -, rfl | rfl⟩ := signed
  · exact nonempty
  · exact List.cons_ne_nil _ _

theorem SignedRun.not_minus (minus : keeps '-' = false) (signed : SignedRun keeps text) :
    text ≠ ['-'] := by
  obtain ⟨run, nonempty, all, rfl | rfl⟩ := signed
  · rintro rfl
    have kept := all '-' List.mem_cons_self
    rw [minus] at kept
    contradiction
  · exact fun same => nonempty (List.cons.inj same).2

/-- What is scanned is a signed run unless there is nothing but the sign. -/
theorem signedRun_scanRun (input : List Char) (nonempty : (scanRun keeps input).1 ≠ [])
    (not_minus : (scanRun keeps input).1 ≠ ['-']) : SignedRun keeps (scanRun keeps input).1 := by
  unfold scanRun at *
  split at *
  · next input =>
    exact ⟨input.takeWhile keeps, fun empty => not_minus (congrArg (List.cons '-') empty),
      fun c listed => List.mem_takeWhile_imp listed, Or.inr rfl⟩
  · exact ⟨input.takeWhile keeps, nonempty, fun c listed => List.mem_takeWhile_imp listed,
      Or.inl rfl⟩

theorem SignedRun.head (signed : SignedRun keeps text) :
    ∀ c ∈ (text ++ rest).head?, c = '-' ∨ keeps c = true := by
  intro c first
  obtain ⟨run, nonempty, all, rfl | rfl⟩ := signed
  · rw [List.head?_append_of_ne_nil _ nonempty] at first
    exact Or.inr (all c (List.mem_of_mem_head? first))
  · exact Or.inl (Option.some.inj first).symm

theorem scanRun_run (signed : SignedRun keeps text) (minus : keeps '-' = false)
    (ends : ∀ c ∈ rest.head?, keeps c = false) : scanRun keeps (text ++ rest) = (text, rest) := by
  obtain ⟨run, nonempty, all, plain | negative⟩ := signed
  · have unsigned : (text ++ rest).head? ≠ some '-' := by
      rw [plain, List.head?_append_of_ne_nil _ nonempty]
      intro first
      have kept := all _ (List.mem_of_mem_head? first)
      rw [minus] at kept
      contradiction
    rw [scanRun_plain unsigned, plain, takeWhile_run all ends, dropWhile_run all ends]
  · rw [negative, List.cons_append, scanRun, takeWhile_run all ends, dropWhile_run all ends]

/-- A run is what the scan takes behind the white space. -/
theorem run_iff (minus : keeps '-' = false) (signSolid : blank '-' = false)
    (solid : ∀ c, keeps c = true → blank c = false) :
    Run blank keeps input text rest ↔
      scanRun keeps (input.dropWhile blank) = (text, rest) ∧ text ≠ [] ∧ text ≠ ['-'] := by
  constructor
  · rintro ⟨space, all, rfl, signed, ends⟩
    have starts : ∀ c ∈ (text ++ rest).head?, blank c = false := by
      intro c first
      rcases signed.head c first with rfl | kept
      · exact signSolid
      · exact solid c kept
    rw [dropWhile_run all starts]
    exact ⟨scanRun_run signed minus ends, signed.nonempty, signed.not_minus minus⟩
  · rintro ⟨scanned, nonempty, not_minus⟩
    have whole : (scanRun keeps _).1 ++ _ = _ := scanRun_append (input.dropWhile blank)
    have ends : ∀ c ∈ (scanRun keeps _).2.head?, keeps c = false :=
      head_scanRun (input.dropWhile blank)
    have signed : _ → _ → SignedRun keeps _ := signedRun_scanRun (input.dropWhile blank)
    rw [scanned] at whole ends signed
    refine ⟨input.takeWhile blank, fun c listed => List.mem_takeWhile_imp listed, ?_,
      signed nonempty not_minus, ends⟩
    rw [whole, List.takeWhile_append_dropWhile]

theorem Run.signed (read : Run blank keeps input text rest) : SignedRun keeps text := by
  obtain ⟨-, -, -, signed, -⟩ := read
  exact signed

theorem Run.shorter (read : Run blank keeps input text rest) : rest.length ≤ input.length := by
  obtain ⟨space, -, rfl, -, -⟩ := read
  simp only [List.length_append]
  omega

/-- A text has at most one run in front. -/
theorem Run.unique (minus : keeps '-' = false) (signSolid : blank '-' = false)
    (solid : ∀ c, keeps c = true → blank c = false) {other behind : List Char}
    (first : Run blank keeps input text rest) (second : Run blank keeps input other behind) :
    text = other ∧ rest = behind := by
  have left := ((run_iff minus signSolid solid).mp first).1
  have right := ((run_iff minus signSolid solid).mp second).1
  exact Prod.mk.inj (left.symm.trans right)

end Runs

section Numbers

/-- The number that a signed run of digits spells. -/
def writtenInt (text : List Char) : Int :=
  if text.head? = some '-' then -spelled text.tail else spelled text

def digitOrPoint (c : Char) : Bool := c.isDigit || c == '.'

/-- A decimal number with at most one point. -/
def Plain (text : List Char) : Prop := text.count '.' ≤ 1 ∧ ∃ c ∈ text, c.isDigit = true

/-- The digits spell the number up to the power of ten that the point stands for. -/
def writtenSize (text : List Char) : ℚ :=
  spelled (text.filter Char.isDigit) / 10 ^ ((text.dropWhile (· != '.')).length - 1)

/-- The number that a plain decimal text stands for. -/
def written (text : List Char) : ℚ :=
  if text.head? = some '-' then -writtenSize text else writtenSize text

variable {run : List Char}

/-- With one point at most, a run is digits, or digits on both sides of the point. -/
theorem run_split (all : ∀ c ∈ run, digitOrPoint c = true) (single : run.count '.' ≤ 1) :
    (∀ c ∈ run, c.isDigit = true) ∨ ∃ whole fraction, run = whole ++ '.' :: fraction ∧
      (∀ c ∈ whole, c.isDigit = true) ∧ ∀ c ∈ fraction, c.isDigit = true := by
  have digit : ∀ c ∈ run, c ≠ '.' → c.isDigit = true := by
    intro c listed other
    simpa [digitOrPoint, other] using all c listed
  by_cases point : '.' ∈ run
  · obtain ⟨whole, fraction, rfl⟩ := List.append_of_mem point
    rw [List.count_append, List.count_cons_self] at single
    have before : '.' ∉ whole := List.count_eq_zero.mp (by omega)
    have behind : '.' ∉ fraction := List.count_eq_zero.mp (by omega)
    refine Or.inr ⟨whole, fraction, rfl, ?_, ?_⟩
    · exact fun c listed => digit c (by simp [listed]) fun same => before (same ▸ listed)
    · exact fun c listed => digit c (by simp [listed]) fun same => behind (same ▸ listed)
  · exact Or.inl fun c listed => digit c listed fun same => point (same ▸ listed)

theorem readUnsigned_run (all : ∀ c ∈ run, digitOrPoint c = true) (single : run.count '.' ≤ 1)
    (digit : ∃ c ∈ run, c.isDigit = true) : readUnsigned run = some (writtenSize run) := by
  have upTo : ∀ (whole rest : List Char), (∀ c ∈ whole, c.isDigit = true) →
      (∀ c ∈ rest.head?, (c != '.') = false) → (whole ++ rest).dropWhile (· != '.') = rest := by
    intro whole rest digits ends
    refine dropWhile_run (fun c listed => bne_iff_ne.mpr ?_) ends
    rintro rfl
    exact absurd (digits _ listed) (by decide)
  rcases run_split all single with digits | ⟨whole, fraction, rfl, digits, after⟩
  · have nonempty : run ≠ [] := by
      rintro rfl
      simp at digit
    have behind := upTo run [] digits (by simp)
    rw [List.append_nil] at behind
    rw [readUnsigned_whole digits nonempty, writtenSize, behind, List.filter_eq_self.mpr digits]
    simp
  · have some_digit : ¬ (whole = [] ∧ fraction = []) := by
      rintro ⟨rfl, rfl⟩
      obtain ⟨c, listed, shown⟩ := digit
      rw [List.nil_append, List.mem_singleton] at listed
      rw [listed] at shown
      exact absurd shown (by decide)
    have behind := upTo whole ('.' :: fraction) digits (by simp)
    have read := readUnsigned_point [] digits after (by simp) some_digit
    rw [List.append_nil] at read
    rw [read, writtenSize, behind, List.filter_append, List.filter_cons_of_neg (by decide),
      List.filter_eq_self.mpr digits, List.filter_eq_self.mpr after, List.length_cons,
      Nat.add_sub_cancel]

theorem digit_of_readUnsigned {q : ℚ} (read : readUnsigned run = some q) :
    ∃ c ∈ run, c.isDigit = true := by
  have first : ∀ text : List Char, text.takeWhile Char.isDigit ≠ [] →
      ∃ c ∈ text, c.isDigit = true := by
    intro text nonempty
    obtain ⟨c, listed⟩ := List.exists_mem_of_ne_nil _ nonempty
    exact ⟨c, (List.takeWhile_subset _) listed, List.mem_takeWhile_imp listed⟩
  by_cases front : run.takeWhile Char.isDigit = []
  · rw [readUnsigned, front] at read
    split at read
    · next behind split =>
      by_cases none_behind : behind.takeWhile Char.isDigit = []
      · rw [none_behind] at read
        contradiction
      · obtain ⟨c, listed, digit⟩ := first behind none_behind
        have inside : c ∈ run.dropWhile Char.isDigit := split ▸ List.mem_cons_of_mem _ listed
        exact ⟨c, (List.dropWhile_subset _) inside, digit⟩
    · contradiction
  · exact first run front

theorem readUnsigned_iff (all : ∀ c ∈ run, digitOrPoint c = true) (q : ℚ) :
    (readUnsigned run = some q ∧ run.count '.' ≤ 1) ↔ (Plain run ∧ writtenSize run = q) := by
  constructor
  · rintro ⟨read, single⟩
    have digit := digit_of_readUnsigned read
    rw [readUnsigned_run all single digit] at read
    exact ⟨⟨single, digit⟩, Option.some.inj read⟩
  · rintro ⟨⟨single, digit⟩, rfl⟩
    exact ⟨readUnsigned_run all single digit, single⟩

theorem plain_minus : Plain ('-' :: run) ↔ Plain run := by
  simp [Plain]

theorem writtenSize_minus : writtenSize ('-' :: run) = writtenSize run := by
  simp [writtenSize]

/-- Of the runs with one point at most, those with a digit are read, as what they stand for. -/
theorem readDecimal_iff {text : List Char} (signed : SignedRun digitOrPoint text) (q : ℚ) :
    (readDecimal text = some q ∧ text.count '.' ≤ 1) ↔ (Plain text ∧ written text = q) := by
  obtain ⟨run, nonempty, all, rfl | rfl⟩ := signed
  · have unsigned : text.head? ≠ some '-' := by
      intro first
      exact absurd (all _ (List.mem_of_mem_head? first)) (by decide)
    rw [readDecimal_plain unsigned, written, if_neg unsigned, readUnsigned_iff all]
  · have opposite := readUnsigned_iff all (-q)
    rw [readDecimal_minus, plain_minus, written, if_pos List.head?_cons, writtenSize_minus,
      List.count_cons_of_ne (by decide), neg_eq_iff_eq_neg, ← opposite, Option.map_eq_some_iff]
    simp [neg_eq_iff_eq_neg]

end Numbers

end TextTokens
