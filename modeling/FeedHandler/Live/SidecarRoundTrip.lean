import FeedHandler.Live.ResyncStateMachine
import FeedHandler.Live.SnapshotSidecar

/-! What a sidecar file brings back. The symbol loses its escapes and a number its exponent,
the number of the cut and the time are never read, and a symbol that is the word of the row
key is taken for that key. Every other sidecar comes back whole. -/
namespace FeedHandler

open DecimalText TextSearch

namespace Bitfinex

namespace SnapshotSidecar

section Escaping

variable {symbol : List Char}

theorem escapeJson_plain (plain : ∀ c ∈ symbol, special c = false) :
    escapeJson symbol = symbol := by
  induction symbol with
  | nil => rfl
  | cons c symbol ih =>
    have rest := ih fun d listed => plain d (List.mem_cons_of_mem c listed)
    simp only [escapeJson, List.flatMap_cons, plain c List.mem_cons_self] at rest ⊢
    rw [rest]
    rfl

theorem length_escapeJson (symbol : List Char) :
    (escapeJson symbol).length = symbol.length + symbol.countP special := by
  induction symbol with
  | nil => rfl
  | cons c symbol ih =>
    simp only [escapeJson, List.flatMap_cons, List.length_append] at ih ⊢
    rw [ih, List.countP_cons, List.length_cons]
    cases special c <;> simp <;> omega

theorem mem_escapeJson {c : Char} (listed : c ∈ escapeJson symbol) : c ∈ symbol ∨ c = '\\' := by
  obtain ⟨d, inside, written⟩ := List.mem_flatMap.mp listed
  split at written
  · rcases List.mem_pair.mp written with rfl | rfl
    · exact Or.inr rfl
    · exact Or.inl inside
  · rw [List.mem_singleton] at written
    exact Or.inl (written ▸ inside)

/-- The reader stops at the first quote and keeps every backslash. -/
theorem takeWhile_escapeJson (symbol : List Char) :
    (escapeJson symbol).takeWhile (· != '"') = symbol ↔ ∀ c ∈ symbol, special c = false := by
  constructor
  · intro same
    have unquoted : ∀ c ∈ symbol, c ≠ '"' := by
      intro c listed
      rw [← same] at listed
      simpa using List.mem_takeWhile_imp listed
    have whole : (escapeJson symbol).takeWhile (· != '"') = escapeJson symbol := by
      rw [List.takeWhile_eq_self_iff]
      intro c listed
      rcases mem_escapeJson listed with inside | backslash
      · simpa using unquoted c inside
      · rw [backslash]
        rfl
    have sizes := length_escapeJson symbol
    rw [← whole, same] at sizes
    have uncounted : symbol.countP special = 0 := by omega
    simpa using List.countP_eq_zero.mp uncounted
  · intro plain
    rw [escapeJson_plain plain, List.takeWhile_eq_self_iff]
    intro c listed
    have other := plain c listed
    simp only [special, Bool.or_eq_false_iff, beq_eq_false_iff_ne] at other
    simpa using other.1

end Escaping

section Pieces

section Quoted

variable {key : List Char}

theorem clear_unquoted (quoted : key.head? = some '"') {piece : List Char}
    (absent : '"' ∉ piece) : clear key piece = true := by
  cases key with
  | nil => contradiction
  | cons first key =>
    obtain rfl := Option.some.inj quoted
    exact clear_of_not_mem absent

/-- The digits of a number are clear of every key. -/
theorem clear_digits (quoted : key.head? = some '"') (n : Nat) :
    clear key (Nat.toDigits 10 n) = true :=
  clear_unquoted quoted (not_mem_toDigits (by decide) n)

end Quoted

theorem numeric_mantissa (d : Decimal 17) : ∀ c ∈ d.mantissa, numeric c = true := by
  intro c listed
  rcases List.mem_append.mp listed with sign | listed
  · cases d with
    | zero => contradiction
    | nonzero negative coefficient exponent short normal =>
      cases negative with
      | false => contradiction
      | true =>
        rw [List.mem_singleton.mp sign]
        rfl
  · rcases mem_pointed listed with digit | point
    · simp [numeric, d.digits_isDigit c digit]
    · rw [point]
      rfl

theorem unquoted_exponent (d : Decimal 17) : '"' ∉ d.exponentText := by
  cases d with
  | zero => exact List.not_mem_nil
  | nonzero negative coefficient exponent short normal =>
    have digits := not_mem_toDigits (show '"'.isDigit = false by decide)
      (Decimal.leadingExponent coefficient exponent).natAbs
    simp only [Decimal.exponentText]
    split
    · split <;> split <;> simp [digits]
    · exact List.not_mem_nil

/-- The text of a number is clear of every key. -/
theorem clear_text {key : List Char} (quoted : key.head? = some '"') (d : Decimal 17) :
    clear key d.text = true := by
  apply clear_unquoted quoted
  intro listed
  rcases List.mem_append.mp listed with front | behind
  · exact absurd (numeric_mantissa d _ front) (by decide)
  · exact unquoted_exponent d behind

/-- The reader takes the digits and stops at the exponent or behind the number. -/
theorem takeWhile_text (d : Decimal 17) {rest : List Char}
    (ends : ∀ c ∈ rest.head?, numeric c = false) :
    (d.text ++ rest).takeWhile numeric = d.mantissa := by
  rw [Decimal.text, List.append_assoc]
  apply takeWhile_run (numeric_mantissa d)
  cases d with
  | zero => exact ends
  | nonzero negative coefficient exponent short normal =>
    simp only [Decimal.exponentText]
    split
    · intro c first
      obtain rfl := Option.some.inj first
      rfl
    · exact ends

theorem text_head (d : Decimal 17) (rest : List Char) :
    ∀ c ∈ (d.text ++ rest).head?, numeric c = true := by
  intro c first
  have nonempty : d.mantissa ≠ [] := by
    intro empty
    have read := d.read_mantissa
    rw [empty] at read
    simp [readDecimal, readUnsigned] at read
  rw [Decimal.text, List.append_assoc, List.head?_append_of_ne_nil _ nonempty] at first
  exact numeric_mantissa d c (List.mem_of_mem_head? first)

theorem parseNum_text {key rest : List Char} (d : Decimal 17) (uncolon : ':' ∉ key)
    (ends : ∀ c ∈ rest.head?, numeric c = false) :
    parseNum (key ++ (": ".toList ++ (d.text ++ rest))) = some d.scanned := by
  have colon : find [':'] (key ++ (": ".toList ++ (d.text ++ rest))) =
      some (": ".toList ++ (d.text ++ rest)) := by
    rw [find_clear (clear_of_not_mem uncolon)]
    exact find_match [':'] _
  have skipped : (" ".toList ++ (d.text ++ rest)).dropWhile blank = d.text ++ rest := by
    apply dropWhile_run (fun c listed => List.mem_singleton.mp listed ▸ rfl)
    intro c first
    have plain := text_head d rest c first
    by_contra space
    simp only [Bool.not_eq_false, blank, Bool.or_eq_true, beq_iff_eq] at space
    rcases space with rfl | rfl <;> exact absurd plain (by decide)
  rw [parseNum, colon]
  show readDecimal (((" ".toList ++ (d.text ++ rest)).dropWhile blank).takeWhile numeric) = _
  rw [skipped, takeWhile_text d ends, d.read_mantissa]

theorem readOrderId_digits (n : UInt64) : readOrderId (Nat.toDigits 10 n.toNat) = n := by
  have spells : ∀ (digits : List Char) (m : Nat),
      digits.foldl (fun oid c => oid * 10 + UInt64.ofNat (c.toNat - '0'.toNat)) (UInt64.ofNat m) =
        UInt64.ofNat (Nat.ofDigitChars 10 digits m) := by
    intro digits
    induction digits with
    | nil => exact fun _ => rfl
    | cons c digits ih =>
      intro m
      rw [List.foldl_cons, Nat.ofDigitChars_cons, ← ih, UInt64.ofNat_add, UInt64.ofNat_mul,
        UInt64.mul_comm]
      rfl
  have read := spells (Nat.toDigits 10 n.toNat) 0
  rw [Nat.ofDigitChars_ten_toDigits, UInt64.ofNat_toNat] at read
  exact read

end Pieces

section Rows

/-- What the reader makes of a row: exponents are lost. -/
def seen (row : BookRow (Decimal 17)) : BookRow ℚ := row.map Decimal.scanned

/-- A row from its amount on. -/
def fromAmount (amount : Decimal 17) (more : List Char) : List Char :=
  amountKey ++ (": ".toList ++ (amount.text ++ '\x7d' :: more))

/-- A row from its price on. -/
def fromPrice (price amount : Decimal 17) (more : List Char) : List Char :=
  priceKey ++ (": ".toList ++ (price.text ++ (", ".toList ++ fromAmount amount more)))

/-- A row is read from the first key on; its number is taken behind the first colon. -/
theorem readRow_pieces (lead gap : List Char) (id : UInt64) (price amount : Decimal 17)
    (more : List Char) (uncolon : ':' ∉ lead)
    (leadPrice : clear priceKey (lead ++ ": ".toList) = true)
    (leadAmount : clear amountKey (lead ++ ": ".toList) = true)
    (gapPrice : clear priceKey gap = true) (gapAmount : clear amountKey gap = true)
    (gapDigit : ∀ c ∈ (gap ++ ", ".toList).head?, c.isDigit = false) :
    readRow (lead ++ ": ".toList ++ (Nat.toDigits 10 id.toNat ++ (gap ++ ", ".toList ++
        fromPrice price amount more))) =
      some (⟨id, price.scanned, amount.scanned⟩,
        ": ".toList ++ (amount.text ++ '\x7d' :: more)) := by
  have colon : ∀ rest, find [':'] (lead ++ ": ".toList ++ rest) = some (": ".toList ++ rest) := by
    intro rest
    rw [List.append_assoc, find_clear (clear_of_not_mem uncolon)]
    exact find_match [':'] _
  have digits : ((" ".toList ++ (Nat.toDigits 10 id.toNat ++ (gap ++ ", ".toList ++
      fromPrice price amount more))).dropWhile fun c => !c.isDigit).takeWhile Char.isDigit =
        Nat.toDigits 10 id.toNat := by
    have skipped : (" ".toList ++ (Nat.toDigits 10 id.toNat ++ (gap ++ ", ".toList ++
        fromPrice price amount more))).dropWhile (fun c => !c.isDigit) =
          Nat.toDigits 10 id.toNat ++ (gap ++ ", ".toList ++ fromPrice price amount more) := by
      apply dropWhile_run (fun c listed => List.mem_singleton.mp listed ▸ rfl)
      intro c first
      rw [List.head?_append_of_ne_nil _ Nat.toDigits_ne_nil] at first
      simpa using isDigit_of_mem (List.mem_of_mem_head? first)
    rw [skipped]
    apply takeWhile_run fun c listed => isDigit_of_mem listed
    intro c first
    rw [List.head?_append_of_ne_nil _ (by simp)] at first
    exact gapDigit c first
  have priceAt : find priceKey (lead ++ ": ".toList ++ (Nat.toDigits 10 id.toNat ++
      (gap ++ ", ".toList ++ fromPrice price amount more))) =
        some (fromPrice price amount more) := by
    rw [find_clear leadPrice, find_clear (clear_digits rfl _),
      find_clear (clear_append gapPrice (by decide)), fromPrice, find_match]
  have amountAt : find amountKey (lead ++ ": ".toList ++ (Nat.toDigits 10 id.toNat ++
      (gap ++ ", ".toList ++ fromPrice price amount more))) = some (fromAmount amount more) := by
    rw [find_clear leadAmount, find_clear (clear_digits rfl _),
      find_clear (clear_append gapAmount (by decide)), fromPrice,
      ← List.append_assoc priceKey, find_clear (by decide), find_clear (clear_text rfl price),
      find_clear (by decide), fromAmount, find_match]
  have priceNum : parseNum (fromPrice price amount more) = some price.scanned :=
    parseNum_text price (by decide) (by simp [numeric])
  have amountNum : parseNum (fromAmount amount more) = some amount.scanned :=
    parseNum_text amount (by decide) (by simp [numeric])
  have orderId := (congrArg readOrderId digits).trans (readOrderId_digits id)
  simp only [readRow, colon, priceAt, amountAt, priceNum, amountNum, Option.bind_eq_bind,
    Option.bind_some]
  have behind : (fromAmount amount more).drop 8 = ": ".toList ++ (amount.text ++ '\x7d' :: more) :=
    List.drop_left' (by decide)
  rw [behind]
  exact congrArg
    (fun oid => some ((⟨oid, price.scanned, amount.scanned⟩ : BookRow ℚ), _)) orderId

theorem rowText_append (row : BookRow (Decimal 17)) (more : List Char) :
    rowText row ++ more = "    \x7b".toList ++ (orderIdKey ++ ": ".toList ++
      (Nat.toDigits 10 row.orderId.toNat ++ ([] ++ ", ".toList ++
        fromPrice row.price row.amount more))) := by
  have first : "    \x7b\"order_id\": ".toList =
      "    \x7b".toList ++ (orderIdKey ++ ": ".toList) := by decide
  have second : ", \"price\": ".toList = ", ".toList ++ (priceKey ++ ": ".toList) := by decide
  have third : ", \"amount\": ".toList = ", ".toList ++ (amountKey ++ ": ".toList) := by decide
  have last : "\x7d".toList ++ more = '\x7d' :: more := rfl
  unfold rowText
  rw [first, second, third]
  simp only [fromPrice, fromAmount, List.append_assoc, List.nil_append, last]

theorem rowsText_cons (row : BookRow (Decimal 17)) (rows : List (BookRow (Decimal 17))) :
    ∃ between, clear orderIdKey between = true ∧
      rowsText (row :: rows) = rowText row ++ (between ++ rowsText rows) := by
  cases rows with
  | nil => exact ⟨"\n".toList, by decide, by simp [rowsText]⟩
  | cons next rows => exact ⟨",\n".toList, by decide, by simp [rowsText]⟩

/-- No row starts between the amount of a row and the next row. -/
theorem clear_behind (row : BookRow (Decimal 17)) {between : List Char}
    (apart : clear orderIdKey between = true) :
    clear orderIdKey (": ".toList ++ (row.amount.text ++ ("\x7d".toList ++ between))) = true :=
  clear_append (by decide)
    (clear_append (clear_text rfl row.amount) (clear_append (by decide) apart))

theorem length_rowsText (rows : List (BookRow (Decimal 17))) :
    rows.length ≤ (rowsText rows).length := by
  induction rows with
  | nil => exact Nat.le_refl 0
  | cons row rows ih =>
    obtain ⟨between, -, split⟩ := rowsText_cons row rows
    have nonempty : 0 < (rowText row).length := by
      unfold rowText
      rw [List.length_append]
      exact Nat.add_pos_right _ (by decide)
    rw [split, List.length_cons, List.length_append, List.length_append]
    omega

/-- The end of the file. -/
def closing : List Char := "  ]\n\x7d\n".toList

theorem find_nothing {key piece : List Char} (nothing : clear key piece = true)
    (nonempty : key ≠ []) : find key piece = none := by
  have skipped := find_clear nothing []
  rwa [List.append_nil, find, if_neg nonempty] at skipped

/-- Behind a text in which no row starts, all rows are read in order. -/
theorem readRows_rows (rows : List (BookRow (Decimal 17))) {rounds : Nat} {front : List Char}
    (enough : rows.length ≤ rounds) (skipped : clear orderIdKey front = true) :
    readRows rounds (front ++ (rowsText rows ++ closing)) = rows.map seen := by
  induction rows generalizing rounds front with
  | nil =>
    cases rounds with
    | zero => rfl
    | succ rounds =>
      have nothing : find orderIdKey (front ++ (rowsText [] ++ closing)) = none :=
        find_nothing (clear_append skipped (by decide)) (by decide)
      rw [readRows, nothing]
      rfl
  | cons row rows ih =>
    cases rounds with
    | zero => contradiction
    | succ rounds =>
      obtain ⟨between, apart, split⟩ := rowsText_cons row rows
      have here := readRow_pieces orderIdKey [] row.orderId row.price row.amount
        (between ++ rowsText rows ++ closing) (by decide) (by decide) (by decide) rfl rfl (by simp)
      have rest := ih (Nat.le_of_succ_le_succ enough) (clear_behind row apart)
      rw [split, List.append_assoc, rowText_append, ← List.append_assoc front, readRows,
        find_clear (clear_append skipped (by decide)), List.append_assoc orderIdKey, find_match,
        ← List.append_assoc orderIdKey]
      simp only [List.append_assoc] at here rest ⊢
      rw [here]
      exact congrArg (seen row :: ·) rest

end Rows

section File

variable (sidecar : SnapshotSidecar (Decimal 17))

/-- The file up to the symbol's opening quote. -/
def beforeSymbol : List Char :=
  "\x7b\n  \"version\": ".toList ++ (Nat.toDigits 10 sidecar.version.toNat ++ ",\n  ".toList)

/-- The file between the number of the cut and the rows. -/
def beforeRows : List Char :=
  ",\n  \"exchange_ts_ns\": ".toList ++ (Nat.toDigits 10 sidecar.exchangeTsNs.toNat ++
    ",\n  \"rows\": [\n".toList)

theorem text_append :
    sidecar.text = beforeSymbol sidecar ++ (symbolKey ++ (": ".toList ++ ('"' ::
      (escapeJson sidecar.symbol ++ '"' :: (",\n  \"cut_sequence\": ".toList ++
        (Nat.toDigits 10 sidecar.cutSequence.toNat ++ (beforeRows sidecar ++
          (rowsText sidecar.rows ++ closing)))))))) := by
  have first : ",\n  \"symbol\": \"".toList =
      ",\n  ".toList ++ (symbolKey ++ (": ".toList ++ ['"'])) := by decide
  have second : "\",\n  \"cut_sequence\": ".toList =
      '"' :: ",\n  \"cut_sequence\": ".toList := by decide
  unfold text beforeSymbol beforeRows closing
  rw [first, second]
  simp only [List.append_assoc, List.cons_append, List.nil_append]

theorem clear_beforeSymbol (key : List Char) (quoted : key.head? = some '"')
    (first : clear key "\x7b\n  \"version\": ".toList = true) :
    clear key (beforeSymbol sidecar) = true :=
  clear_append first (clear_append (clear_digits quoted _) (clear_unquoted quoted (by decide)))

theorem clear_beforeRows (key : List Char) (quoted : key.head? = some '"')
    (first : clear key ",\n  \"exchange_ts_ns\": ".toList = true)
    (last : clear key ",\n  \"rows\": [\n".toList = true) :
    clear key (beforeRows sidecar) = true :=
  clear_append first (clear_append (clear_digits quoted _) last)

/-- The symbol is read up to the first quote of what was written. -/
theorem readSymbol_text :
    readSymbol sidecar.text = (escapeJson sidecar.symbol).takeWhile (· != '"') := by
  have behind : ∀ rest, (symbolKey ++ (": ".toList ++ ('"' :: rest))).drop 8 =
      ": ".toList ++ ('"' :: rest) := fun rest => List.drop_left' (by decide)
  have opening : ∀ rest, find ['"'] (": ".toList ++ ('"' :: rest)) = some ('"' :: rest) := by
    intro rest
    rw [find_clear (by decide)]
    exact find_match ['"'] rest
  rw [text_append, readSymbol, find_clear (clear_beforeSymbol sidecar _ rfl (by decide)),
    find_match]
  simp only [behind, opening, List.drop_succ_cons, List.drop_zero]
  rw [find_char (by simp)]
  simp only
  rw [take_sub_dropWhile, List.takeWhile_append]
  split
  case isTrue whole =>
    rw [List.takeWhile_cons_of_neg (by decide), List.append_nil]
    exact ((List.takeWhile_prefix _).eq_of_length whole).symm
  case isFalse => rfl

variable {sidecar}

theorem unquoted_symbol (plain : ∀ c ∈ sidecar.symbol, special c = false) :
    '"' ∉ sidecar.symbol := by
  intro listed
  exact absurd (plain _ listed) (by decide)

/-- The quoted symbol is clear of the row key unless it is the word of the key. -/
theorem clear_symbol (plain : ∀ c ∈ sidecar.symbol, special c = false)
    (other : sidecar.symbol ≠ "order_id".toList) :
    clear orderIdKey ('"' :: (sidecar.symbol ++ '"' :: ",\n  \"cut_sequence\": ".toList)) =
      true := by
  have unquoted := unquoted_symbol plain
  have key : orderIdKey = '"' :: ("order_id".toList ++ ['"']) := by decide
  have apart := differs_closed '"' (by decide) unquoted other
    ",\n  \"cut_sequence\": ".toList
  rw [clear, Bool.and_eq_true]
  constructor
  · rw [key, differs, apart, Bool.or_true]
  · exact clear_append (clear_unquoted rfl unquoted) (by decide)

/-- The rows when no row key can be mistaken: the symbol is not the word of the key. -/
theorem readRows_text (plain : ∀ c ∈ sidecar.symbol, special c = false)
    (other : sidecar.symbol ≠ "order_id".toList) :
    readRows sidecar.text.length sidecar.text = sidecar.rows.map seen := by
  have header := clear_append (clear_beforeSymbol sidecar orderIdKey rfl (by decide))
    (clear_append (show clear orderIdKey (symbolKey ++ ": ".toList) = true by decide)
      (clear_append (clear_symbol plain other)
        (clear_append (clear_digits rfl sidecar.cutSequence.toNat)
          (clear_beforeRows sidecar _ rfl (by decide) (by decide)))))
  have rounds : sidecar.rows.length ≤ sidecar.text.length := by
    have size := length_rowsText sidecar.rows
    have whole := congrArg List.length (text_append sidecar)
    simp only [List.length_append, List.length_cons] at whole
    omega
  have read := readRows_rows sidecar.rows rounds header
  have whole := text_append sidecar
  rw [escapeJson_plain plain] at whole
  simp only [List.append_assoc, List.cons_append] at read
  rwa [← whole] at read

/-- The file from the symbol's opening quote on, when the symbol is the word of the row key. -/
theorem find_keyword (keyword : sidecar.symbol = "order_id".toList) :
    find orderIdKey sidecar.text =
      some (orderIdKey ++ ",\n  \"cut_sequence\"".toList ++ ": ".toList ++
        (Nat.toDigits 10 sidecar.cutSequence.toNat ++ (beforeRows sidecar ++
          (rowsText sidecar.rows ++ closing)))) := by
  have plain : escapeJson sidecar.symbol = "order_id".toList := by
    rw [keyword]
    decide
  have here : ∀ rest,
      '"' :: ("order_id".toList ++ '"' :: (",\n  \"cut_sequence\": ".toList ++ rest)) =
        orderIdKey ++ (",\n  \"cut_sequence\"".toList ++ (": ".toList ++ rest)) := fun _ => rfl
  rw [text_append, plain, find_clear (clear_beforeSymbol sidecar _ rfl (by decide)),
    ← List.append_assoc symbolKey, find_clear (by decide), here, find_match]
  simp only [List.append_assoc]

theorem readRow_unpriced {here : List Char} (unpriced : find priceKey here = none) :
    readRow here = none := by
  rw [readRow, unpriced]
  cases find [':'] here <;> rfl

/-- A symbol that is the word of the row key is taken for the key of the first row, which
gets the number of the cut for its id. -/
theorem readRows_keyword (keyword : sidecar.symbol = "order_id".toList) :
    readRows sidecar.text.length sidecar.text =
      match sidecar.rows with
      | [] => []
      | row :: rows => { seen row with orderId := sidecar.cutSequence } :: rows.map seen := by
  have size := length_rowsText sidecar.rows
  have whole := congrArg List.length (text_append sidecar)
  simp only [List.length_append, List.length_cons] at whole
  obtain ⟨rounds, counted⟩ : ∃ rounds, sidecar.text.length = rounds + 1 := ⟨_, whole⟩
  rw [counted, readRows, find_keyword keyword]
  cases listed : sidecar.rows with
  | nil =>
    have nothing : find priceKey (orderIdKey ++ ",\n  \"cut_sequence\"".toList ++ ": ".toList ++
        (Nat.toDigits 10 sidecar.cutSequence.toNat ++ (beforeRows sidecar ++
          (rowsText [] ++ closing)))) = none :=
      find_nothing
        (clear_append (by decide)
          (clear_append (clear_digits rfl _)
            (clear_append (clear_beforeRows sidecar _ rfl (by decide) (by decide)) (by decide))))
        (by decide)
    simp only [readRow_unpriced nothing]
  | cons row rows =>
    obtain ⟨between, apart, split⟩ := rowsText_cons row rows
    have priceGap := clear_append
      (clear_beforeRows sidecar priceKey rfl (by decide) (by decide))
      (clear_append
        (show clear priceKey ("    \x7b".toList ++ (orderIdKey ++ ": ".toList)) = true by decide)
        (clear_digits rfl row.orderId.toNat))
    have amountGap := clear_append
      (clear_beforeRows sidecar amountKey rfl (by decide) (by decide))
      (clear_append
        (show clear amountKey ("    \x7b".toList ++ (orderIdKey ++ ": ".toList)) = true by decide)
        (clear_digits rfl row.orderId.toNat))
    have here := readRow_pieces (orderIdKey ++ ",\n  \"cut_sequence\"".toList) _
      sidecar.cutSequence row.price row.amount (between ++ (rowsText rows ++ closing))
      (by decide) (by decide) (by decide) priceGap amountGap
      (by
        intro c first
        obtain rfl : ',' = c := Option.some.inj first
        rfl)
    have enough : rows.length ≤ rounds := by
      rw [listed, List.length_cons] at size
      rw [listed] at whole
      omega
    have rest := readRows_rows rows enough (clear_behind row apart)
    rw [split, List.append_assoc (rowText row), rowText_append]
    simp only [List.append_assoc, List.nil_append] at here rest ⊢
    rw [here]
    exact congrArg (List.cons _) rest

end File

section RoundTrip

/-- What is read from the file is what was written to it. -/
def Restored {Path : Type*} [DecidableEq Path] (files : SidecarFiles Path) (path : Path)
    (sidecar : SnapshotSidecar (Decimal 17)) : Prop :=
  ∀ out, ∃ read, readSidecar (writeSidecar files path sidecar) path out = (true, read) ∧
    read.symbol = sidecar.symbol ∧ read.cutSequence = sidecar.cutSequence ∧
      read.exchangeTsNs = sidecar.exchangeTsNs ∧
        read.rows = sidecar.rows.map (BookRow.map Decimal.value)

/-- The sidecars that the reader gets back whole. -/
structure Readable (sidecar : SnapshotSidecar (Decimal 17)) : Prop where
  cut : sidecar.cutSequence = 0
  time : sidecar.exchangeTsNs = 0
  plain : ∀ c ∈ sidecar.symbol, special c = false
  nonempty : sidecar.symbol ≠ [] ∨ sidecar.rows ≠ []
  numbers : ∀ row ∈ sidecar.rows, row.price.scientific = false ∧ row.amount.scientific = false
  keyword : sidecar.symbol = "order_id".toList → ∀ row ∈ sidecar.rows.head?, row.orderId = 0

variable {Path : Type*} [DecidableEq Path]

theorem readSidecar_write (files : SidecarFiles Path) (path : Path)
    (sidecar : SnapshotSidecar (Decimal 17)) (out : SnapshotSidecar ℚ) :
    readSidecar (writeSidecar files path sidecar) path out =
      (!(ofText sidecar.text).rows.isEmpty || !(ofText sidecar.text).symbol.isEmpty,
        ofText sidecar.text) := by
  simp only [readSidecar, writeSidecar, Function.update_self]

theorem ofText_symbol (json : List Char) : (ofText json).symbol = readSymbol json := rfl

theorem ofText_rows (json : List Char) : (ofText json).rows = readRows json.length json := rfl

theorem seen_eq_iff (row : BookRow (Decimal 17)) :
    seen row = row.map Decimal.value ↔
      row.price.scientific = false ∧ row.amount.scientific = false := by
  rw [← Decimal.scanned_eq_iff, ← Decimal.scanned_eq_iff]
  simp [seen, BookRow.map]

theorem map_seen_iff (rows : List (BookRow (Decimal 17))) :
    rows.map seen = rows.map (BookRow.map Decimal.value) ↔
      ∀ row ∈ rows, row.price.scientific = false ∧ row.amount.scientific = false := by
  rw [List.map_inj_left]
  exact forall₂_congr fun row _ => seen_eq_iff row

/-- With a plain symbol, the rows come back where no exponent is printed and the symbol does
not hide the first row's id. -/
theorem rows_restored_iff {sidecar : SnapshotSidecar (Decimal 17)}
    (plain : ∀ c ∈ sidecar.symbol, special c = false) (cut : sidecar.cutSequence = 0) :
    readRows sidecar.text.length sidecar.text = sidecar.rows.map (BookRow.map Decimal.value) ↔
      (∀ row ∈ sidecar.rows, row.price.scientific = false ∧ row.amount.scientific = false) ∧
        (sidecar.symbol = "order_id".toList → ∀ row ∈ sidecar.rows.head?, row.orderId = 0) := by
  by_cases keyword : sidecar.symbol = "order_id".toList
  · rw [readRows_keyword keyword]
    cases sidecar.rows with
    | nil => simp
    | cons row rows =>
      have first : ({ seen row with orderId := sidecar.cutSequence } : BookRow ℚ) =
          row.map Decimal.value ↔
            (row.price.scientific = false ∧ row.amount.scientific = false) ∧ row.orderId = 0 := by
        rw [← seen_eq_iff, cut]
        simp only [seen, BookRow.map, BookRow.mk.injEq, true_and]
        exact ⟨fun same => ⟨same.2, same.1.symm⟩, fun same => ⟨same.2.symm, same.1⟩⟩
      rw [List.map_cons, List.cons.injEq, first, map_seen_iff, List.forall_mem_cons]
      simp only [keyword, true_implies, List.head?_cons, Option.mem_some_iff, forall_eq']
      exact and_right_comm
  · rw [readRows_text plain keyword, map_seen_iff]
    exact (and_iff_left fun same => absurd same keyword).symm

/-- The number of the cut is never read. -/
theorem cut_restored {files : SidecarFiles Path} {path : Path}
    {sidecar : SnapshotSidecar (Decimal 17)} (restored : Restored files path sidecar) :
    0 = sidecar.cutSequence := by
  obtain ⟨read, same, -, cut, -⟩ := restored {}
  rw [readSidecar_write, Prod.mk.injEq] at same
  obtain ⟨-, rfl⟩ := same
  exact cut

theorem sidecar_restored_iff (files : SidecarFiles Path) (path : Path)
    (sidecar : SnapshotSidecar (Decimal 17)) : Restored files path sidecar ↔ Readable sidecar := by
  have symbolRead : (ofText sidecar.text).symbol = sidecar.symbol ↔
      ∀ c ∈ sidecar.symbol, special c = false := by
    rw [ofText_symbol, readSymbol_text, takeWhile_escapeJson]
  have found : (ofText sidecar.text).symbol = sidecar.symbol →
      (ofText sidecar.text).rows = sidecar.rows.map (BookRow.map Decimal.value) →
      ((!(ofText sidecar.text).rows.isEmpty || !(ofText sidecar.text).symbol.isEmpty) = true ↔
        sidecar.symbol ≠ [] ∨ sidecar.rows ≠ []) := by
    intro symbol rows
    rw [symbol, rows, Bool.or_eq_true, or_comm]
    simp
  constructor
  · intro restored
    obtain ⟨read, same, symbol, cut, time, rows⟩ := restored {}
    rw [readSidecar_write, Prod.mk.injEq] at same
    obtain ⟨success, rfl⟩ := same
    have plain := symbolRead.mp symbol
    have nonempty := (found symbol rows).mp success
    rw [ofText_rows] at rows
    obtain ⟨numbers, keyword⟩ := (rows_restored_iff plain cut.symm).mp rows
    exact ⟨cut.symm, time.symm, plain, nonempty, numbers, keyword⟩
  · rintro ⟨cut, time, plain, nonempty, numbers, keyword⟩ out
    have symbol := symbolRead.mpr plain
    have rows := (rows_restored_iff plain cut).mpr ⟨numbers, keyword⟩
    rw [← ofText_rows] at rows
    refine ⟨ofText sidecar.text, ?_, symbol, cut.symm, time.symm, rows⟩
    rw [readSidecar_write, (found symbol rows).mpr nonempty]

/-- A cut with a number is not read back. -/
theorem cut_sequence_lost :
    ¬ Restored (fun _ : Unit => none) ()
      { symbol := "tBTCUSD".toList, cutSequence := 7, exchangeTsNs := 1700000000000000000
        rows := [⟨1, .nonzero false 650005 (-1) (by decide) (by decide),
          .nonzero true 25 (-2) (by decide) (by decide)⟩] } := by
  intro restored
  have zero : (7 : UInt64) = 0 := (cut_restored restored).symm
  exact absurd zero (by decide)

/-- What `onSnapshot` writes beside the journal. -/
def ofSnapshot (symbolWire : List Char) (frame : SnapshotFrame (Decimal 17)) (tsNs : UInt64) :
    SnapshotSidecar (Decimal 17) where
  symbol := symbolWire
  cutSequence := frame.sequence
  exchangeTsNs := tsNs
  rows := frame.rows

/-- A journal that starts from a numbered snapshot is never tied to it by its sidecar. -/
theorem numbered_snapshot_lost (files : SidecarFiles Path) (path : Path) (symbolWire : List Char)
    {frame : SnapshotFrame (Decimal 17)} (tsNs : UInt64) (numbered : frame.sequence ≠ 0) :
    ¬ Restored files path (ofSnapshot symbolWire frame tsNs) :=
  fun restored => numbered (cut_restored restored).symm

end RoundTrip

end SnapshotSidecar

end Bitfinex

end FeedHandler
