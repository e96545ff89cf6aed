import FeedHandler.Live.WireParse

/-! The grammar of Bitfinex frames, and what the scanner makes of its tokens and rows. Each
judgment relates a text to what stands in front of it and to what remains behind. -/
namespace FeedHandler

open DecimalText TextTokens

namespace Bitfinex

namespace WireParse

/-- An integer that a channel id can hold. -/
def ChanText (s : List Char) (channelId : Int64) (rest : List Char) : Prop :=
  ∃ text, Run isSpace Char.isDigit s text rest ∧ writtenInt text = channelId.toInt

/-- A non-negative integer below two to the 63. -/
def IdText (s : List Char) (id : UInt64) (rest : List Char) : Prop :=
  ∃ text, Run isSpace Char.isDigit s text rest ∧ writtenInt text = id.toNat ∧ id.toNat < 2 ^ 63

/-- The characters of a price or an amount. -/
def NumberText (s text rest : List Char) : Prop := Run isSpace digitOrPoint s text rest

/-- A row with its numbers as they are written. -/
structure LexedRow where
  orderId : UInt64
  price : List Char
  amount : List Char

inductive RowText : List Char → LexedRow → List Char → Prop
  | row : Mark isSpace '[' s s₁ → IdText s₁ orderId s₂ → Mark isSpace ',' s₂ s₃ →
      NumberText s₃ price s₄ → Mark isSpace ',' s₄ s₅ → NumberText s₅ amount s₆ →
      Mark isSpace ']' s₆ rest → RowText s ⟨orderId, price, amount⟩ rest

/-- Rows up to the bracket that closes their list. -/
inductive RowsText : List Char → List LexedRow → List Char → Prop
  | last : RowText s row s₁ → Mark isSpace ']' s₁ rest → RowsText s [row] rest
  | more : RowText s row s₁ → Mark isSpace ',' s₁ s₂ → RowsText s₂ rows rest →
      RowsText s (row :: rows) rest

/-- The characters between the tokens of a frame. -/
inductive Sign : Char → Prop
  | opening : Sign '['
  | closing : Sign ']'
  | comma : Sign ','
  | quote : Sign '"'

section Signs

variable {c : Char} {s rest behind : List Char}

theorem Sign.solid (sign : Sign c) : isSpace c = false := by
  cases sign <;> decide

theorem Sign.not_number (sign : Sign c) : c ≠ '-' ∧ c.isDigit = false := by
  cases sign <;> decide

theorem marks_same (sign : Sign c) (first : Mark isSpace c s rest)
    (second : Mark isSpace c s behind) : rest = behind :=
  (first.unique sign.solid sign.solid second).2

theorem marks_apart {d : Char} (sign : Sign c) (other : Sign d) (differ : c ≠ d)
    (first : Mark isSpace c s rest) : ¬ Mark isSpace d s behind :=
  fun second => differ (first.unique sign.solid other.solid second).1

theorem closing_not_comma (closes : Mark isSpace ']' s rest) : ¬ Mark isSpace ',' s behind :=
  marks_apart .closing .comma (by decide) closes

theorem closing_not_opening (closes : Mark isSpace ']' s rest) : ¬ Mark isSpace '[' s behind :=
  marks_apart .closing .opening (by decide) closes

theorem quote_not_opening (quote : Mark isSpace '"' s rest) : ¬ Mark isSpace '[' s behind :=
  marks_apart .quote .opening (by decide) quote

end Signs

section Tokens

theorem isSpace_digit {c : Char} (digit : c.isDigit = true) : isSpace c = false := by
  have above : '0' ≤ c := by
    simp only [Char.isDigit, Bool.and_eq_true, decide_eq_true_eq] at digit
    exact digit.1
  simp only [isSpace, decide_eq_false_iff_not, not_or, not_and]
  constructor
  · rintro rfl
    contradiction
  · intro _ below
    exact absurd (Char.le_trans above below) (by decide)

theorem isSpace_digitOrPoint {c : Char} (kept : digitOrPoint c = true) : isSpace c = false := by
  rw [digitOrPoint, Bool.or_eq_true, beq_iff_eq] at kept
  rcases kept with digit | rfl
  · exact isSpace_digit digit
  · decide

variable {s rest : List Char}

theorem skipWs_mark {c : Char} (sign : Sign c) : skipWs s = c :: rest ↔ Mark isSpace c s rest :=
  (mark_iff sign.solid).symm

theorem expect_iff {c : Char} (sign : Sign c) :
    expect c s = some rest ↔ Mark isSpace c s rest := by
  rw [mark_iff sign.solid, expect, skipWs]
  cases s.dropWhile isSpace with
  | nil => simp
  | cons d behind =>
    by_cases same : d = c
    · simp [same]
    · simp [same]

theorem accepted_iff {α : Type} {read : Option α × List Char} {value : α} :
    accepted read = some (value, rest) ↔ read = (some value, rest) := by
  obtain ⟨found, behind⟩ := read
  cases found <;> simp [accepted]

theorem run_digits_iff {text : List Char} : Run isSpace Char.isDigit s text rest ↔
    scanRun Char.isDigit (skipWs s) = (text, rest) ∧ text ≠ [] ∧ text ≠ ['-'] :=
  run_iff (by decide) (by decide) fun _ => isSpace_digit

theorem run_digits_unique {text other behind : List Char}
    (first : Run isSpace Char.isDigit s text rest)
    (second : Run isSpace Char.isDigit s other behind) : text = other ∧ rest = behind :=
  first.unique (by decide) (by decide) (fun _ => isSpace_digit) second

theorem run_number_iff {text : List Char} : NumberText s text rest ↔
    scanRun digitOrPoint (skipWs s) = (text, rest) ∧ text ≠ [] ∧ text ≠ ['-'] :=
  run_iff (by decide) (by decide) fun _ => isSpace_digitOrPoint

theorem fromCharsI64_iff {text : List Char} {v : Int64} :
    fromCharsI64 text = some v ↔ writtenInt text = v.toInt := by
  simp only [fromCharsI64]
  constructor
  · intro stored
    split at stored
    case isTrue inside =>
      rw [← Option.some.inj stored, Int64.toInt_ofInt_of_le inside.1 inside.2]
    case isFalse => contradiction
  · intro same
    rw [same, if_pos ⟨v.le_toInt, v.toInt_lt⟩, Int64.ofInt_toInt]

/-- A number is stored when its run is one and the conversion succeeds. -/
theorem scanned_iff {α : Type} {convert : List Char → Option α} {scan : List Char × List Char}
    {value : α} :
    accepted (if scan.1 = [] ∨ scan.1 = ['-'] then none else convert scan.1, scan.2) =
        some (value, rest) ↔
      ∃ text, (scan = (text, rest) ∧ text ≠ [] ∧ text ≠ ['-']) ∧ convert text = some value := by
  obtain ⟨text, behind⟩ := scan
  rw [accepted_iff, Prod.mk.injEq]
  constructor
  · rintro ⟨stored, rfl⟩
    split at stored
    case isTrue => contradiction
    case isFalse run =>
      rw [not_or] at run
      exact ⟨text, ⟨rfl, run⟩, stored⟩
  · rintro ⟨_, ⟨same, run⟩, stored⟩
    obtain ⟨rfl, rfl⟩ := Prod.mk.inj same
    exact ⟨by rw [if_neg (not_or.mpr run), stored], rfl⟩

theorem parseI64_iff {channelId : Int64} :
    accepted (parseI64 s) = some (channelId, rest) ↔ ChanText s channelId rest := by
  simp only [parseI64, scanned_iff, ChanText, run_digits_iff, fromCharsI64_iff]

theorem parseDouble_iff {D : Type} {store : ℚ → Option D} {d : D} :
    accepted (parseDouble store s) = some (d, rest) ↔
      ∃ text, NumberText s text rest ∧ fromCharsDouble store text = some d := by
  simp only [parseDouble, scanned_iff, run_number_iff]

theorem toUInt64_iff {v : Int64} {id : UInt64} :
    (¬ v < 0 ∧ v.toUInt64 = id) ↔ (v.toInt = id.toNat ∧ id.toNat < 2 ^ 63) := by
  rw [Int64.not_lt, ← UInt64.toNat_inj]
  have zero : (0 : Int64).toInt = 0 := rfl
  constructor
  · rintro ⟨nonneg, same⟩
    have size := Int64.toNat_toUInt64_of_le nonneg
    have bound := v.toInt_lt
    rw [Int64.le_iff_toInt_le, zero] at nonneg
    rw [Int64.toNatClampNeg] at size
    omega
  · rintro ⟨same, bound⟩
    have nonneg : 0 ≤ v := by
      rw [Int64.le_iff_toInt_le, zero]
      omega
    have size := Int64.toNat_toUInt64_of_le nonneg
    rw [Int64.toNatClampNeg] at size
    exact ⟨nonneg, by omega⟩

theorem parseU64_iff {id : UInt64} :
    accepted (parseU64 s) = some (id, rest) ↔ IdText s id rest := by
  have narrowed : accepted (parseU64 s) = some (id, rest) ↔
      ∃ v, accepted (parseI64 s) = some (v, rest) ∧ ¬ v < 0 ∧ v.toUInt64 = id := by
    simp only [accepted_iff, parseU64]
    obtain ⟨found, behind⟩ := parseI64 s
    cases found with
    | none => simp
    | some v =>
      by_cases negative : v < 0
      · simp [negative]
      · simp [negative, Int64.not_lt.mp negative, and_comm]
  simp only [narrowed, parseI64_iff, toUInt64_iff, ChanText, IdText]
  constructor
  · rintro ⟨v, ⟨text, run, same⟩, value, bound⟩
    exact ⟨text, run, same.trans value, bound⟩
  · rintro ⟨text, run, same, bound⟩
    have value : (Int64.ofInt id.toNat).toInt = id.toNat :=
      Int64.toInt_ofInt_of_le (by omega) (by omega)
    exact ⟨Int64.ofInt id.toNat, ⟨text, run, same.trans value.symm⟩, value, bound⟩

end Tokens

section Unique

variable {s rest behind : List Char}

theorem ChanText.unique {v w : Int64} (first : ChanText s v rest) (second : ChanText s w behind) :
    v = w ∧ rest = behind := by
  obtain ⟨text, run, value⟩ := first
  obtain ⟨other, again, same⟩ := second
  obtain ⟨rfl, ends⟩ := run_digits_unique run again
  exact ⟨Int64.toInt_inj.mp (value.symm.trans same), ends⟩

theorem IdText.unique {v w : UInt64} (first : IdText s v rest) (second : IdText s w behind) :
    v = w ∧ rest = behind := by
  obtain ⟨text, run, value, -⟩ := first
  obtain ⟨other, again, same, -⟩ := second
  obtain ⟨rfl, ends⟩ := run_digits_unique run again
  exact ⟨UInt64.toNat_inj.mp (by omega), ends⟩

theorem NumberText.unique {text other : List Char} (first : NumberText s text rest)
    (second : NumberText s other behind) : text = other ∧ rest = behind :=
  Run.unique (by decide) (by decide) (fun _ => isSpace_digitOrPoint) first second

theorem RowText.unique {row other : LexedRow} (first : RowText s row rest)
    (second : RowText s other behind) : row = other ∧ rest = behind := by
  obtain ⟨opens, id, comma, price, next, amount, closes⟩ := first
  obtain ⟨opens', id', comma', price', next', amount', closes'⟩ := second
  obtain rfl := marks_same .opening opens opens'
  obtain ⟨rfl, rfl⟩ := id.unique id'
  obtain rfl := marks_same .comma comma comma'
  obtain ⟨rfl, rfl⟩ := price.unique price'
  obtain rfl := marks_same .comma next next'
  obtain ⟨rfl, rfl⟩ := amount.unique amount'
  exact ⟨rfl, marks_same .closing closes closes'⟩

theorem RowsText.unique {rows others : List LexedRow} (first : RowsText s rows rest)
    (second : RowsText s others behind) : rows = others ∧ rest = behind := by
  induction first generalizing others with
  | last row closes =>
    cases second with
    | last row' closes' =>
      obtain ⟨rfl, rfl⟩ := row.unique row'
      exact ⟨rfl, marks_same .closing closes closes'⟩
    | more row' comma' rows' =>
      obtain ⟨rfl, rfl⟩ := row.unique row'
      exact absurd comma' (closing_not_comma closes)
  | more row comma rows ih =>
    cases second with
    | last row' closes' =>
      obtain ⟨rfl, rfl⟩ := row.unique row'
      exact absurd comma (closing_not_comma closes')
    | more row' comma' rows' =>
      obtain ⟨rfl, rfl⟩ := row.unique row'
      obtain rfl := marks_same .comma comma comma'
      obtain ⟨rfl, ends⟩ := ih rows'
      exact ⟨rfl, ends⟩

theorem RowText.shorter {row : LexedRow} (read : RowText s row rest) : rest.length < s.length := by
  obtain ⟨opens, ⟨_, id, -⟩, comma, price, next, amount, closes⟩ := read
  have sizes := And.intro opens.shorter (And.intro id.shorter (And.intro comma.shorter
    (And.intro (Run.shorter price) (And.intro next.shorter
      (And.intro (Run.shorter amount) closes.shorter)))))
  omega

/-- An id starts with its sign or a digit. -/
theorem IdText.head {id : UInt64} (read : IdText s id rest) :
    ∀ c ∈ (skipWs s).head?, c = '-' ∨ c.isDigit = true := by
  obtain ⟨text, run, -⟩ := read
  have signed := run.signed
  have whole : (scanRun Char.isDigit (skipWs s)).1 ++ _ = _ := scanRun_append (skipWs s)
  rw [(run_digits_iff.mp run).1] at whole
  rw [← whole]
  exact signed.head

/-- No bracket stands in front of an id. -/
theorem IdText.not_mark {id : UInt64} {c : Char} (read : IdText s id rest) (sign : Sign c) :
    ¬ Mark isSpace c s behind := by
  intro marked
  have first := read.head c (by rw [(skipWs_mark sign).mpr marked]; rfl)
  rcases first with minus | digit
  · exact sign.not_number.1 minus
  · rw [sign.not_number.2] at digit
    contradiction

/-- The characters that the numbers of a row are made of. -/
theorem RowText.signed {row : LexedRow} (read : RowText s row rest) :
    SignedRun digitOrPoint row.price ∧ SignedRun digitOrPoint row.amount := by
  obtain ⟨-, -, -, ⟨_, -, -, price, -⟩, -, ⟨_, -, -, amount, -⟩, -⟩ := read
  exact ⟨price, amount⟩

theorem RowsText.signed {rows : List LexedRow} (read : RowsText s rows rest) :
    ∀ row ∈ rows, SignedRun digitOrPoint row.price ∧ SignedRun digitOrPoint row.amount := by
  induction read with
  | last row closes => simpa using row.signed
  | more row comma rows ih => exact List.forall_mem_cons.mpr ⟨row.signed, ih⟩

theorem RowText.opens {row : LexedRow} (read : RowText s row rest) :
    ∃ inner, Mark isSpace '[' s inner ∧ ∃ behind, IdText inner row.orderId behind := by
  obtain ⟨opens, id, -⟩ := read
  exact ⟨_, opens, _, id⟩

theorem RowsText.opens {rows : List LexedRow} (read : RowsText s rows rest) :
    ∃ inner, Mark isSpace '[' s inner := by
  cases read with
  | last row closes => exact ⟨_, row.opens.choose_spec.1⟩
  | more row comma rows => exact ⟨_, row.opens.choose_spec.1⟩

theorem RowsText.nonempty {rows : List LexedRow} (read : RowsText s rows rest) : rows ≠ [] := by
  cases read <;> exact List.cons_ne_nil _ _

end Unique

section Rows

variable {D : Type} {store : ℚ → Option D} {s rest : List Char}

/-- The scanner stores this row for the one that is written. -/
structure LexedRow.Reads (store : ℚ → Option D) (lexed : LexedRow) (row : BookRow D) : Prop where
  orderId : row.orderId = lexed.orderId
  price : fromCharsDouble store lexed.price = some row.price
  amount : fromCharsDouble store lexed.amount = some row.amount

theorem parseRow_iff {row : BookRow D} : parseRow store s = some (row, rest) ↔
    ∃ lexed, RowText s lexed rest ∧ lexed.Reads store row := by
  simp only [parseRow, Option.bind_eq_bind, Option.bind_eq_some_iff, Prod.exists,
    expect_iff .opening, expect_iff .comma,
    expect_iff .closing, parseU64_iff, parseDouble_iff]
  constructor
  · rintro ⟨s₁, opens, id, s₂, idText, s₃, comma, price, s₄, ⟨priceText, priceRun, priceRead⟩,
      s₅, next, amount, s₆, ⟨amountText, amountRun, amountRead⟩, s₇, closes, same⟩
    obtain ⟨rfl, rfl⟩ := Prod.mk.inj (Option.some.inj same)
    exact ⟨⟨id, priceText, amountText⟩,
      .row opens idText comma priceRun next amountRun closes, rfl, priceRead, amountRead⟩
  · rintro ⟨_, ⟨opens, id, comma, price, next, amount, closes⟩, idRead, priceRead, amountRead⟩
    obtain ⟨_, _, _⟩ := row
    obtain rfl := idRead
    exact ⟨_, opens, _, _, id, _, comma, _, _, ⟨_, price, priceRead⟩, _, next, _, _,
      ⟨_, amount, amountRead⟩, _, closes, rfl⟩

theorem parseRows_sound {rounds : Nat} {rows : List (BookRow D)}
    (parsed : parseRows store rounds s = some (rows, rest)) :
    ∃ lexed, RowsText s lexed rest ∧ List.Forall₂ (LexedRow.Reads store) lexed rows := by
  induction rounds generalizing s rows with
  | zero => contradiction
  | succ rounds ih =>
    simp only [parseRows, Option.bind_eq_bind, Option.bind_eq_some_iff, Prod.exists] at parsed
    obtain ⟨row, s₁, first, parsed⟩ := parsed
    obtain ⟨lexed, rowText, reads⟩ := parseRow_iff.mp first
    split at parsed
    · next s₂ closes =>
      obtain ⟨rfl, rfl⟩ := Prod.mk.inj (Option.some.inj parsed)
      exact ⟨[lexed], .last rowText ((expect_iff .closing).mp closes), .cons reads .nil⟩
    · simp only [Option.bind_eq_some_iff, Prod.exists] at parsed
      obtain ⟨s₂, comma, others, s₃, parsed, same⟩ := parsed
      obtain ⟨rfl, rfl⟩ := Prod.mk.inj (Option.some.inj same)
      obtain ⟨lexedRows, rowsText, readRows⟩ := ih parsed
      exact ⟨lexed :: lexedRows, .more rowText ((expect_iff .comma).mp comma) rowsText,
        .cons reads readRows⟩

theorem expect_none {c d : Char} (sign : Sign c) (other : Sign d) (differ : c ≠ d)
    (read : Mark isSpace d s rest) : expect c s = none := by
  rw [Option.eq_none_iff_forall_ne_some]
  intro behind taken
  exact marks_apart sign other differ ((expect_iff sign).mp taken) read

theorem parseRows_complete {rounds : Nat} {lexed : List LexedRow} {rows : List (BookRow D)}
    (text : RowsText s lexed rest) (reads : List.Forall₂ (LexedRow.Reads store) lexed rows)
    (enough : s.length ≤ rounds) : parseRows store rounds s = some (rows, rest) := by
  induction text generalizing rounds rows with
  | last rowText closes =>
    obtain ⟨row, others, readRow, readRows, rfl⟩ := List.forall₂_cons_left_iff.mp reads
    obtain rfl := List.forall₂_nil_left_iff.mp readRows
    have shorter := rowText.shorter
    obtain ⟨rounds, rfl⟩ : ∃ fewer, rounds = fewer + 1 := ⟨rounds - 1, by omega⟩
    have first := parseRow_iff.mpr ⟨_, rowText, readRow⟩
    have closed := (expect_iff .closing).mpr closes
    simp only [parseRows, first, closed, Option.bind_eq_bind, Option.bind_some]
    rfl
  | more rowText comma rowsText ih =>
    obtain ⟨row, others, readRow, readRows, rfl⟩ := List.forall₂_cons_left_iff.mp reads
    have shorter := rowText.shorter
    have further := comma.shorter
    obtain ⟨rounds, rfl⟩ : ∃ fewer, rounds = fewer + 1 := ⟨rounds - 1, by omega⟩
    have first := parseRow_iff.mpr ⟨_, rowText, readRow⟩
    have open_list := expect_none .closing .comma (by decide) comma
    have next := (expect_iff .comma).mpr comma
    have last := ih readRows (show _ ≤ rounds by omega)
    simp only [parseRows, first, open_list, next, last, Option.bind_eq_bind, Option.bind_some]
    rfl

/-- The bound on the rounds never ends the loop: it reads every list of rows. -/
theorem parseRows_iff {rows : List (BookRow D)} :
    parseRows store s.length s = some (rows, rest) ↔
      ∃ lexed, RowsText s lexed rest ∧ List.Forall₂ (LexedRow.Reads store) lexed rows :=
  ⟨parseRows_sound, fun ⟨_, text, reads⟩ => parseRows_complete text reads (Nat.le_refl _)⟩

end Rows

end WireParse

end Bitfinex

end FeedHandler
