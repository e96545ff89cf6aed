import FeedHandler.Live.WireGrammar

/-! Frames against their grammar. What stands behind the channel id is the tag of a
heartbeat, a row, or rows; the grammar closes the frame behind it, and the scanner asks for
less. The texts on which the two part are listed one kind at a time. -/
namespace FeedHandler

open DecimalText TextTokens

namespace Bitfinex

namespace WireParse

inductive Body where
  | heartbeat
  | row (row : LexedRow)
  | rows (rows : List LexedRow)

inductive BodyText : List Char → Body → List Char → Prop
  | heartbeat : Mark isSpace '"' s ("hb\"".toList ++ rest) → BodyText s .heartbeat rest
  | row : RowText s row rest → BodyText s (.row row) rest
  | noRows : Mark isSpace '[' s s₁ → Mark isSpace ']' s₁ rest → BodyText s (.rows []) rest
  | rows : Mark isSpace '[' s s₁ → RowsText s₁ rows rest → BodyText s (.rows rows) rest

/-- A frame up to the end of its body. -/
inductive Opened : List Char → Int64 → Body → List Char → Prop
  | opened : Mark isSpace '[' s s₁ → ChanText s₁ channelId s₂ → Mark isSpace ',' s₂ s₃ →
      BodyText s₃ body rest → Opened s channelId body rest

/-- Nothing but white space. -/
def Blank (s : List Char) : Prop := ∀ c ∈ s, isSpace c = true

/-- The closing bracket of the frame, and nothing behind it. -/
def Closed (s : List Char) : Prop := ∃ rest, Mark isSpace ']' s rest ∧ Blank rest

/-- The end of a frame with rows, with a sequence or without. -/
inductive Ending : List Char → UInt64 → Prop
  | bare : Closed s → Ending s 0
  | sequence : Mark isSpace ',' s s₁ → IdText s₁ seqNo s₂ → Closed s₂ → Ending s seqNo

def LexedRow.Plain (row : LexedRow) : Prop :=
  TextTokens.Plain row.price ∧ TextTokens.Plain row.amount

/-- A frame with its numbers as they are written. -/
inductive WrittenFrame where
  | snapshot (channelId : Int64) (rows : List LexedRow) (seqNo : UInt64)
  | update (channelId : Int64) (row : LexedRow) (seqNo : UInt64)
  | heartbeat

/-- The grammar. -/
inductive Written : List Char → WrittenFrame → Prop
  | heartbeat : Opened s channelId .heartbeat rest → Closed rest → Written s .heartbeat
  | snapshot : Opened s channelId (.rows rows) rest → (∀ row ∈ rows, row.Plain) →
      Ending rest seqNo → Written s (.snapshot channelId rows seqNo)
  | update : Opened s channelId (.row row) rest → row.Plain → Ending rest seqNo →
      Written s (.update channelId row seqNo)

section Meaning

variable {D : Type} (store : ℚ → Option D)

/-- The row has the id and the numbers that are written. -/
structure LexedRow.Shows (lexed : LexedRow) (row : BookRow D) : Prop where
  orderId : row.orderId = lexed.orderId
  price : store (written lexed.price) = some row.price
  amount : store (written lexed.amount) = some row.amount

/-- The frame is of the kind that is written and has the fields that are written. -/
inductive Shown : ParsedFrame D → WrittenFrame → Prop
  | snapshot : List.Forall₂ (LexedRow.Shows store) lexed rows →
      Shown (.snapshot channelId ⟨rows, seqNo⟩) (.snapshot channelId lexed seqNo)
  | update : lexed.Shows store row →
      Shown (.update channelId ⟨row, seqNo⟩) (.update channelId lexed seqNo)
  | heartbeat : Shown .heartbeat .heartbeat

/-- A text that starts with a bracket is accepted just when the grammar writes it, as the
frame that is written. -/
def FollowsGrammar (s : List Char) : Prop :=
  (∃ rest, Mark isSpace '[' s rest) →
    (∀ text, Written s text → ∃ frame, parseFrame store s = some frame ∧ Shown store frame text) ∧
      ∀ frame, parseFrame store s = some frame → ∃ text, Written s text ∧ Shown store frame text

/-- The numbers of the row are stored, if need be from a prefix of their text. -/
def LexedRow.Readable (lexed : LexedRow) : Prop :=
  (fromCharsDouble store lexed.price).isSome ∧ (fromCharsDouble store lexed.amount).isSome

/-- A number of the row is out of the range of a double. -/
def LexedRow.OutOfRange (lexed : LexedRow) : Prop :=
  store (written lexed.price) = none ∨ store (written lexed.amount) = none

end Meaning

def LexedRow.RepeatsPoint (lexed : LexedRow) : Prop :=
  2 ≤ lexed.price.count '.' ∨ 2 ≤ lexed.amount.count '.'

/-- What is let pass behind a row: a comma asks for a sequence, no more. -/
inductive UpdateTail : List Char → UInt64 → List Char → Prop
  | bare : (∀ rest, ¬ Mark isSpace ',' s rest) → UpdateTail s 0 s
  | sequence : Mark isSpace ',' s s₁ → IdText s₁ seqNo rest → UpdateTail s seqNo rest

/-- What is let pass behind rows: behind a comma that no sequence follows, a minus sign and
digits are skipped before the closing bracket. -/
inductive SnapshotTail : List Char → Option UInt64 → List Char → Prop
  | bare : Mark isSpace ']' s rest → SnapshotTail s (some 0) rest
  | sequence : Mark isSpace ',' s s₁ → IdText s₁ seqNo s₂ → Mark isSpace ']' s₂ rest →
      SnapshotTail s (some seqNo) rest
  | malformed : Mark isSpace ',' s s₁ → (∀ seqNo s₂, ¬ IdText s₁ seqNo s₂) →
      Mark isSpace ']' (scanRun Char.isDigit (skipWs s₁)).2 rest → SnapshotTail s none rest

/-- The texts on which the scanner and the grammar part. -/
inductive Misread {D : Type} (store : ℚ → Option D) : List Char → Prop
  /-- A heartbeat whose tag is not followed by the closing bracket alone. -/
  | openHeartbeat : Opened s channelId .heartbeat rest → ¬ Closed rest → Misread store s
  /-- A snapshot without rows. -/
  | noRows : Opened s channelId (.rows []) rest → Ending rest seqNo → Misread store s
  /-- An update that is not closed, or with a second point in a number. -/
  | looseUpdate : Opened s channelId (.row lexed) rest → lexed.Readable store →
      UpdateTail rest seqNo behind → ¬ Closed behind ∨ lexed.RepeatsPoint → Misread store s
  /-- A snapshot with no sequence behind its comma, with text behind its closing bracket, or
  with a second point in a number. -/
  | looseSnapshot : Opened s channelId (.rows lexed) rest → lexed ≠ [] →
      (∀ row ∈ lexed, row.Readable store) → SnapshotTail rest seqNo behind →
      seqNo = none ∨ ¬ Blank behind ∨ (∃ row ∈ lexed, row.RepeatsPoint) → Misread store s
  | updateRange : Written s (.update channelId lexed seqNo) → lexed.OutOfRange store →
      Misread store s
  | snapshotRange : Written s (.snapshot channelId lexed seqNo) →
      (∃ row ∈ lexed, row.OutOfRange store) → Misread store s

/-- The frames that the scanner accepts behind their channel id. -/
inductive AcceptedBody {D : Type} (store : ℚ → Option D) (channelId : Int64) (s : List Char) :
    ParsedFrame D → Prop
  | heartbeat : BodyText s .heartbeat rest → AcceptedBody store channelId s .heartbeat
  | update : BodyText s (.row lexed) rest → lexed.Reads store row →
      UpdateTail rest seqNo behind →
      AcceptedBody store channelId s (.update channelId ⟨row, seqNo⟩)
  | snapshot : BodyText s (.rows lexed) rest → lexed ≠ [] →
      List.Forall₂ (LexedRow.Reads store) lexed rows → SnapshotTail rest seqNo behind →
      AcceptedBody store channelId s (.snapshot channelId ⟨rows, seqNo.getD 0⟩)

/-- The frames that the scanner accepts. -/
inductive Accepted {D : Type} (store : ℚ → Option D) (s : List Char) : ParsedFrame D → Prop
  | heartbeat : Opened s channelId .heartbeat rest → Accepted store s .heartbeat
  | update : Opened s channelId (.row lexed) rest → lexed.Reads store row →
      UpdateTail rest seqNo behind → Accepted store s (.update channelId ⟨row, seqNo⟩)
  | snapshot : Opened s channelId (.rows lexed) rest → lexed ≠ [] →
      List.Forall₂ (LexedRow.Reads store) lexed rows → SnapshotTail rest seqNo behind →
      Accepted store s (.snapshot channelId ⟨rows, seqNo.getD 0⟩)

section Scanner

variable {D : Type} {store : ℚ → Option D} {s rest : List Char}

theorem parseSnapshotRows_iff {rows : List (BookRow D)} :
    parseSnapshotRows store s = some (rows, rest) ↔
      ∃ lexed, BodyText s (.rows lexed) rest ∧ List.Forall₂ (LexedRow.Reads store) lexed rows := by
  simp only [parseSnapshotRows, Option.bind_eq_bind, Option.bind_eq_some_iff,
    expect_iff .opening]
  constructor
  · rintro ⟨s₁, opens, parsed⟩
    split at parsed
    · next s₂ closes =>
      obtain ⟨rfl, rfl⟩ := Prod.mk.inj (Option.some.inj parsed)
      exact ⟨[], .noRows opens ((expect_iff .closing).mp closes), .nil⟩
    · obtain ⟨lexed, text, reads⟩ := parseRows_iff.mp parsed
      exact ⟨lexed, .rows opens text, reads⟩
  · rintro ⟨lexed, body, reads⟩
    cases body with
    | noRows opens closes =>
      obtain rfl := List.forall₂_nil_left_iff.mp reads
      have closed := (expect_iff .closing).mpr closes
      exact ⟨_, opens, by rw [closed]; rfl⟩
    | rows opens text =>
      obtain ⟨s₂, first⟩ := text.opens
      have further := expect_none .closing .opening (by decide) first
      exact ⟨_, opens, by rw [further]; exact parseRows_iff.mpr ⟨lexed, text, reads⟩⟩

/-- What the scanner does behind the rows. -/
theorem skipSequence_iff {behind : List Char} {seqNo : UInt64} :
    expect ']' (skipSequence s).2 = some behind ∧ (skipSequence s).1 = seqNo ↔
      ∃ found, SnapshotTail s found behind ∧ found.getD 0 = seqNo := by
  rw [expect_iff .closing]
  cases comma : expect ',' s with
  | none =>
    have no_comma : ∀ s₁, ¬ Mark isSpace ',' s s₁ := by
      intro s₁ read
      rw [(expect_iff .comma).mpr read] at comma
      contradiction
    simp only [skipSequence, comma]
    constructor
    · rintro ⟨closes, rfl⟩
      exact ⟨some 0, .bare closes, rfl⟩
    · rintro ⟨found, tail, rfl⟩
      cases tail with
      | bare closes => exact ⟨closes, rfl⟩
      | sequence read _ _ => exact absurd read (no_comma _)
      | malformed read _ _ => exact absurd read (no_comma _)
  | some s₁ =>
    have read := (expect_iff .comma).mp comma
    have unclosed : ∀ s₂, ¬ Mark isSpace ']' s s₂ := by
      intro s₂ closes
      exact absurd read (closing_not_comma closes)
    simp only [skipSequence, comma]
    cases number : (parseU64 s₁).1 with
    | some v =>
      have id : IdText s₁ v (parseU64 s₁).2 :=
        parseU64_iff.mp (accepted_iff.mpr (Prod.ext number rfl))
      constructor
      · rintro ⟨closes, rfl⟩
        exact ⟨some v, .sequence read id closes, rfl⟩
      · rintro ⟨found, tail, rfl⟩
        cases tail with
        | bare closes => exact absurd closes (unclosed _)
        | sequence read' id' closes =>
          obtain rfl := marks_same .comma read read'
          obtain ⟨rfl, ends⟩ := id.unique id'
          exact ⟨ends ▸ closes, rfl⟩
        | malformed read' none_read _ =>
          obtain rfl := marks_same .comma read read'
          exact absurd id (none_read _ _)
    | none =>
      have none_read : ∀ v s₂, ¬ IdText s₁ v s₂ := by
        intro v s₂ id
        rw [accepted_iff.mp (parseU64_iff.mpr id)] at number
        contradiction
      constructor
      · rintro ⟨closes, rfl⟩
        exact ⟨none, .malformed read none_read closes, rfl⟩
      · rintro ⟨found, tail, rfl⟩
        cases tail with
        | bare closes => exact absurd closes (unclosed _)
        | sequence read' id closes =>
          obtain rfl := marks_same .comma read read'
          exact absurd id (none_read _ _)
        | malformed read' _ closes =>
          obtain rfl := marks_same .comma read read'
          exact ⟨closes, rfl⟩

theorem parseSnapshot_iff {channelId : Int64} {frame : ParsedFrame D} :
    parseSnapshot store channelId s = some frame ↔
      ∃ lexed rows rest seqNo behind, BodyText s (.rows lexed) rest ∧
        List.Forall₂ (LexedRow.Reads store) lexed rows ∧ SnapshotTail rest seqNo behind ∧
          frame = .snapshot channelId ⟨rows, seqNo.getD 0⟩ := by
  simp only [parseSnapshot, Option.bind_eq_bind, Option.bind_eq_some_iff, Prod.exists,
    parseSnapshotRows_iff]
  constructor
  · rintro ⟨rows, s₁, ⟨lexed, body, reads⟩, behind, closes, same⟩
    obtain ⟨seqNo, tail, value⟩ := skipSequence_iff.mp ⟨closes, rfl⟩
    refine ⟨lexed, rows, s₁, seqNo, behind, body, reads, tail, ?_⟩
    rw [value]
    exact (Option.some.inj same).symm
  · rintro ⟨lexed, rows, s₁, seqNo, behind, body, reads, tail, rfl⟩
    obtain ⟨closes, value⟩ := skipSequence_iff.mpr ⟨seqNo, tail, rfl⟩
    exact ⟨rows, s₁, ⟨lexed, body, reads⟩, behind, closes, by rw [value]; rfl⟩

theorem parseUpdate_iff {channelId : Int64} {frame : ParsedFrame D} :
    parseUpdate store channelId s = some frame ↔
      ∃ lexed row rest seqNo behind, RowText s lexed rest ∧ lexed.Reads store row ∧
        UpdateTail rest seqNo behind ∧ frame = .update channelId ⟨row, seqNo⟩ := by
  simp only [parseUpdate, Option.bind_eq_bind, Option.bind_eq_some_iff, Prod.exists, parseRow_iff]
  constructor
  · rintro ⟨row, s₁, ⟨lexed, text, reads⟩, parsed⟩
    split at parsed
    · next s₂ comma =>
      obtain ⟨seqNo, number, rfl⟩ := Option.map_eq_some_iff.mp parsed
      have id : IdText s₂ seqNo (parseU64 s₂).2 :=
        parseU64_iff.mp (accepted_iff.mpr (Prod.ext number rfl))
      exact ⟨lexed, row, s₁, seqNo, _, text, reads,
        .sequence ((expect_iff .comma).mp comma) id, rfl⟩
    · next no_comma =>
      refine ⟨lexed, row, s₁, 0, s₁, text, reads, .bare ?_, (Option.some.inj parsed).symm⟩
      intro s₂ read
      rw [(expect_iff .comma).mpr read] at no_comma
      contradiction
  · rintro ⟨lexed, row, s₁, seqNo, behind, text, reads, tail, rfl⟩
    refine ⟨row, s₁, ⟨lexed, text, reads⟩, ?_⟩
    cases tail with
    | bare no_comma =>
      have absent : expect ',' s₁ = none := by
        rw [Option.eq_none_iff_forall_ne_some]
        exact fun s₂ taken => no_comma s₂ ((expect_iff .comma).mp taken)
      rw [absent]
      rfl
    | sequence comma id =>
      have number := accepted_iff.mp (parseU64_iff.mpr id)
      rw [(expect_iff .comma).mpr comma]
      simp only [number, Option.map_some]

/-- The tag of a heartbeat is the string `hb`, whatever stands behind it. -/
theorem parseStringToken_hb : (parseStringToken s).1 = some "hb".toList ↔
    ∃ rest, Mark isSpace '"' s ("hb\"".toList ++ rest) := by
  constructor
  · intro read
    rw [parseStringToken] at read
    split at read
    · next body opens =>
      split at read
      · next c rest stops =>
        have tag : body.takeWhile (· != '"') = "hb".toList := Option.some.inj read
        have quote := head_dropWhile (· != '"') body
        rw [stops] at quote
        have closes : c = '"' := by simpa using quote c rfl
        have whole := List.takeWhile_append_dropWhile (p := (· != '"')) (l := body)
        rw [tag, stops, closes] at whole
        exact ⟨rest, (skipWs_mark .quote).mp (opens.trans (by rw [← whole]; rfl))⟩
      · contradiction
    · contradiction
  · rintro ⟨rest, text⟩
    rw [parseStringToken, (skipWs_mark .quote).mpr text]
    rfl

theorem parseBody_iff {channelId : Int64} {frame : ParsedFrame D} :
    parseBody store channelId s = some frame ↔ AcceptedBody store channelId s frame := by
  constructor
  · intro parsed
    rw [parseBody] at parsed
    split at parsed
    · obtain ⟨tag, read, parsed⟩ := Option.bind_eq_some_iff.mp parsed
      split at parsed
      case isTrue hb =>
        obtain rfl := Option.some.inj parsed
        rw [hb] at read
        obtain ⟨rest, text⟩ := parseStringToken_hb.mp read
        exact .heartbeat (.heartbeat text)
      case isFalse => contradiction
    · next inner opens =>
      have opens := (skipWs_mark .opening).mp opens
      split at parsed
      case isTrue peek =>
        obtain ⟨lexed, rows, rest, seqNo, behind, body, reads, tail, rfl⟩ :=
          parseSnapshot_iff.mp parsed
        refine .snapshot body ?_ reads tail
        rintro rfl
        cases body with
        | noRows opens' closes =>
          obtain rfl := marks_same .opening opens opens'
          rw [(skipWs_mark .closing).mpr closes] at peek
          exact absurd (Option.some.inj peek) (by decide)
        | rows opens' text => exact text.nonempty rfl
      case isFalse =>
        obtain ⟨lexed, row, rest, seqNo, behind, text, reads, tail, rfl⟩ :=
          parseUpdate_iff.mp parsed
        exact .update (.row text) reads tail
    · contradiction
  · intro body
    rw [parseBody]
    cases body with
    | heartbeat body =>
      cases body with
      | heartbeat text =>
        have tag := parseStringToken_hb.mpr ⟨_, text⟩
        rw [(skipWs_mark .quote).mpr text]
        simp only [tag]
        rfl
    | update body reads tail =>
      cases body with
      | row text =>
        obtain ⟨inner, opens, behind, id⟩ := text.opens
        have single : ¬ (skipWs inner).head? = some '[' := by
          intro peek
          rcases id.head _ peek with minus | digit
          · contradiction
          · contradiction
        rw [(skipWs_mark .opening).mpr opens]
        simp only [if_neg single]
        exact parseUpdate_iff.mpr ⟨_, _, _, _, _, text, reads, tail, rfl⟩
    | snapshot body nonempty reads tail =>
      have parsed : parseSnapshot store channelId s = _ :=
        parseSnapshot_iff.mpr ⟨_, _, _, _, _, body, reads, tail, rfl⟩
      cases body with
      | noRows opens closes => contradiction
      | rows opens text =>
        obtain ⟨inner, first⟩ := text.opens
        rw [(skipWs_mark .opening).mpr opens]
        simp only [(skipWs_mark .opening).mpr first, List.head?_cons, if_true]
        exact parsed

theorem parseArray_iff {frame : ParsedFrame D} : parseArray store s = some frame ↔
    ∃ channelId s₁, ChanText s channelId s₁ ∧ ∃ s₂, Mark isSpace ',' s₁ s₂ ∧
      AcceptedBody store channelId s₂ frame := by
  simp only [parseArray, Option.bind_eq_bind, Option.bind_eq_some_iff, Prod.exists, parseI64_iff,
    expect_iff .comma, parseBody_iff]

/-- Of the texts that start with a bracket, these are accepted. -/
theorem parseFrame_iff {frame : ParsedFrame D} (starts : ∃ rest, Mark isSpace '[' s rest) :
    parseFrame store s = some frame ↔ Accepted store s frame := by
  obtain ⟨rest, starts⟩ := starts
  rw [parseFrame, (expect_iff .opening).mpr starts]
  simp only [parseArray_iff]
  constructor
  · rintro ⟨channelId, s₁, id, s₂, comma, body⟩
    cases body with
    | heartbeat body => exact .heartbeat (.opened starts id comma body)
    | update body reads tail => exact .update (.opened starts id comma body) reads tail
    | snapshot body nonempty reads tail =>
      exact .snapshot (.opened starts id comma body) nonempty reads tail
  · intro accepted
    cases accepted with
    | heartbeat opened =>
      obtain ⟨opens, id, comma, body⟩ := opened
      obtain rfl := marks_same .opening starts opens
      exact ⟨_, _, id, _, comma, .heartbeat body⟩
    | update opened reads tail =>
      obtain ⟨opens, id, comma, body⟩ := opened
      obtain rfl := marks_same .opening starts opens
      exact ⟨_, _, id, _, comma, .update body reads tail⟩
    | snapshot opened nonempty reads tail =>
      obtain ⟨opens, id, comma, body⟩ := opened
      obtain rfl := marks_same .opening starts opens
      exact ⟨_, _, id, _, comma, .snapshot body nonempty reads tail⟩

end Scanner

section Opening

variable {s rest behind : List Char}

/-- The first bracket of a body with rows, and what tells the kinds apart behind it. -/
theorem RowText.not_rows {row : LexedRow} (read : RowText s row rest) {inner : List Char} {c : Char}
    (opens : Mark isSpace '[' s inner) (sign : Sign c) : ¬ Mark isSpace c inner behind := by
  obtain ⟨inner', opens', after, id⟩ := read.opens
  obtain rfl := marks_same .opening opens opens'
  exact id.not_mark sign

theorem BodyText.unique {body other : Body} (first : BodyText s body rest)
    (second : BodyText s other behind) : body = other ∧ rest = behind := by
  cases first with
  | heartbeat tag =>
    cases second with
    | heartbeat tag' =>
      exact ⟨rfl, List.append_cancel_left (marks_same .quote tag tag')⟩
    | row text => exact absurd text.opens.choose_spec.1 (quote_not_opening tag)
    | noRows opens => exact absurd opens (quote_not_opening tag)
    | rows opens => exact absurd opens (quote_not_opening tag)
  | row text =>
    cases second with
    | heartbeat tag => exact absurd text.opens.choose_spec.1 (quote_not_opening tag)
    | row text' =>
      obtain ⟨rfl, ends⟩ := text.unique text'
      exact ⟨rfl, ends⟩
    | noRows opens closes =>
      exact absurd closes (text.not_rows opens .closing)
    | rows opens rows =>
      exact absurd rows.opens.choose_spec
        (text.not_rows opens .opening)
  | noRows opens closes =>
    cases second with
    | heartbeat tag => exact absurd opens (quote_not_opening tag)
    | row text => exact absurd closes (text.not_rows opens .closing)
    | noRows opens' closes' =>
      obtain rfl := marks_same .opening opens opens'
      exact ⟨rfl, marks_same .closing closes closes'⟩
    | rows opens' rows =>
      obtain rfl := marks_same .opening opens opens'
      exact absurd rows.opens.choose_spec (closing_not_opening closes)
  | rows opens rows =>
    cases second with
    | heartbeat tag => exact absurd opens (quote_not_opening tag)
    | row text =>
      exact absurd rows.opens.choose_spec
        (text.not_rows opens .opening)
    | noRows opens' closes =>
      obtain rfl := marks_same .opening opens opens'
      exact absurd rows.opens.choose_spec (closing_not_opening closes)
    | rows opens' rows' =>
      obtain rfl := marks_same .opening opens opens'
      obtain ⟨rfl, ends⟩ := rows.unique rows'
      exact ⟨rfl, ends⟩

theorem Opened.unique {v w : Int64} {body other : Body} (first : Opened s v body rest)
    (second : Opened s w other behind) : v = w ∧ body = other ∧ rest = behind := by
  obtain ⟨opens, id, comma, text⟩ := first
  obtain ⟨opens', id', comma', text'⟩ := second
  obtain rfl := marks_same .opening opens opens'
  obtain ⟨rfl, rfl⟩ := id.unique id'
  obtain rfl := marks_same .comma comma comma'
  exact ⟨rfl, text.unique text'⟩

theorem Closed.no_comma (closed : Closed s) : ∀ rest, ¬ Mark isSpace ',' s rest := by
  obtain ⟨behind, closes, -⟩ := closed
  intro rest comma
  exact absurd comma (closing_not_comma closes)

theorem UpdateTail.unique {v w : UInt64} (first : UpdateTail s v rest)
    (second : UpdateTail s w behind) : v = w ∧ rest = behind := by
  cases first with
  | bare no_comma =>
    cases second with
    | bare => exact ⟨rfl, rfl⟩
    | sequence comma id => exact absurd comma (no_comma _)
  | sequence comma id =>
    cases second with
    | bare no_comma => exact absurd comma (no_comma _)
    | sequence comma' id' =>
      obtain rfl := marks_same .comma comma comma'
      exact id.unique id'

/-- The grammar's end of a frame is what is let pass behind a row, and then the bracket. -/
theorem ending_update {seqNo : UInt64} :
    Ending s seqNo ↔ ∃ behind, UpdateTail s seqNo behind ∧ Closed behind := by
  constructor
  · intro ends
    cases ends with
    | bare closed => exact ⟨s, .bare closed.no_comma, closed⟩
    | sequence comma id closed => exact ⟨_, .sequence comma id, closed⟩
  · rintro ⟨behind, tail, closed⟩
    cases tail with
    | bare => exact .bare closed
    | sequence comma id => exact .sequence comma id closed

/-- Behind rows it is a sequence, if any, the bracket and nothing else. -/
theorem ending_snapshot {seqNo : UInt64} :
    Ending s seqNo ↔ ∃ behind, SnapshotTail s (some seqNo) behind ∧ Blank behind := by
  constructor
  · intro ends
    cases ends with
    | bare closed =>
      obtain ⟨behind, closes, blank⟩ := closed
      exact ⟨behind, .bare closes, blank⟩
    | sequence comma id closed =>
      obtain ⟨behind, closes, blank⟩ := closed
      exact ⟨behind, .sequence comma id closes, blank⟩
  · rintro ⟨behind, tail, blank⟩
    cases tail with
    | bare closes => exact .bare ⟨behind, closes, blank⟩
    | sequence comma id closes => exact .sequence comma id ⟨behind, closes, blank⟩

theorem SnapshotTail.unique {v w : Option UInt64} (first : SnapshotTail s v rest)
    (second : SnapshotTail s w behind) : v = w ∧ rest = behind := by
  cases first with
  | bare closes =>
    cases second with
    | bare closes' => exact ⟨rfl, marks_same .closing closes closes'⟩
    | sequence comma => exact absurd comma (closing_not_comma closes)
    | malformed comma => exact absurd comma (closing_not_comma closes)
  | sequence comma id closes =>
    cases second with
    | bare closes' => exact absurd comma (closing_not_comma closes')
    | sequence comma' id' closes' =>
      obtain rfl := marks_same .comma comma comma'
      obtain ⟨rfl, rfl⟩ := id.unique id'
      exact ⟨rfl, marks_same .closing closes closes'⟩
    | malformed comma' no_id =>
      obtain rfl := marks_same .comma comma comma'
      exact absurd id (no_id _ _)
  | malformed comma no_id closes =>
    cases second with
    | bare closes' => exact absurd comma (closing_not_comma closes')
    | sequence comma' id =>
      obtain rfl := marks_same .comma comma comma'
      exact absurd id (no_id _ _)
    | malformed comma' _ closes' =>
      obtain rfl := marks_same .comma comma comma'
      exact ⟨rfl, marks_same .closing closes closes'⟩

theorem Opened.starts {v : Int64} {body : Body} (opened : Opened s v body rest) :
    ∃ inner, Mark isSpace '[' s inner := by
  obtain ⟨opens, -⟩ := opened
  exact ⟨_, opens⟩

theorem Opened.signed {v : Int64} {row : LexedRow} (opened : Opened s v (.row row) rest) :
    SignedRun digitOrPoint row.price ∧ SignedRun digitOrPoint row.amount := by
  obtain ⟨-, -, -, body⟩ := opened
  cases body with
  | row text => exact text.signed

theorem Opened.signed_rows {v : Int64} {rows : List LexedRow}
    (opened : Opened s v (.rows rows) rest) :
    ∀ row ∈ rows, SignedRun digitOrPoint row.price ∧ SignedRun digitOrPoint row.amount := by
  obtain ⟨-, -, -, body⟩ := opened
  cases body with
  | noRows => exact List.forall_mem_nil _
  | rows opens text => exact text.signed

end Opening

section Numbers

variable {D : Type} {store : ℚ → Option D}

/-- With one point at most, what is stored is the number that is written. -/
theorem fromCharsDouble_iff (store : ℚ → Option D) {text : List Char} {d : D}
    (signed : SignedRun digitOrPoint text) :
    (fromCharsDouble store text = some d ∧ ¬ 2 ≤ text.count '.') ↔
      (Plain text ∧ store (written text) = some d) := by
  rw [fromCharsDouble, Option.bind_eq_some_iff, Nat.not_le]
  constructor
  · rintro ⟨⟨q, read, stored⟩, single⟩
    obtain ⟨plain, rfl⟩ := (readDecimal_iff signed q).mp ⟨read, by omega⟩
    exact ⟨plain, stored⟩
  · rintro ⟨plain, stored⟩
    obtain ⟨read, single⟩ := (readDecimal_iff signed _).mpr ⟨plain, rfl⟩
    exact ⟨⟨_, read, stored⟩, by omega⟩

theorem LexedRow.reads_iff {lexed : LexedRow} {row : BookRow D}
    (signed : SignedRun digitOrPoint lexed.price ∧ SignedRun digitOrPoint lexed.amount) :
    (lexed.Reads store row ∧ ¬ lexed.RepeatsPoint) ↔ (lexed.Plain ∧ lexed.Shows store row) := by
  have price := fromCharsDouble_iff store (d := row.price) signed.1
  have amount := fromCharsDouble_iff store (d := row.amount) signed.2
  simp only [RepeatsPoint, not_or, LexedRow.Plain]
  constructor
  · rintro ⟨⟨orderId, priceRead, amountRead⟩, pricePoint, amountPoint⟩
    obtain ⟨pricePlain, priceShown⟩ := price.mp ⟨priceRead, pricePoint⟩
    obtain ⟨amountPlain, amountShown⟩ := amount.mp ⟨amountRead, amountPoint⟩
    exact ⟨⟨pricePlain, amountPlain⟩, orderId, priceShown, amountShown⟩
  · rintro ⟨⟨pricePlain, amountPlain⟩, orderId, priceShown, amountShown⟩
    obtain ⟨priceRead, pricePoint⟩ := price.mpr ⟨pricePlain, priceShown⟩
    obtain ⟨amountRead, amountPoint⟩ := amount.mpr ⟨amountPlain, amountShown⟩
    exact ⟨⟨orderId, priceRead, amountRead⟩, pricePoint, amountPoint⟩

theorem rows_reads_iff {lexed : List LexedRow} {rows : List (BookRow D)}
    (signed : ∀ row ∈ lexed,
      SignedRun digitOrPoint row.price ∧ SignedRun digitOrPoint row.amount) :
    (List.Forall₂ (LexedRow.Reads store) lexed rows ∧ ∀ row ∈ lexed, ¬ row.RepeatsPoint) ↔
      ((∀ row ∈ lexed, row.Plain) ∧ List.Forall₂ (LexedRow.Shows store) lexed rows) := by
  induction lexed generalizing rows with
  | nil => simp
  | cons first lexed ih =>
    rw [List.forall_mem_cons] at signed
    cases rows with
    | nil => simp
    | cons row rows =>
      have one : first.Reads store row ∧ _ ↔ _ := LexedRow.reads_iff signed.1
      have more : List.Forall₂ _ lexed rows ∧ _ ↔ _ := ih signed.2
      simp only [List.forall₂_cons, List.forall_mem_cons]
      tauto

theorem LexedRow.exists_reads {lexed : LexedRow} (readable : lexed.Readable store) :
    ∃ row, lexed.Reads store row := by
  obtain ⟨price, priceRead⟩ := Option.isSome_iff_exists.mp readable.1
  obtain ⟨amount, amountRead⟩ := Option.isSome_iff_exists.mp readable.2
  exact ⟨⟨lexed.orderId, price, amount⟩, rfl, priceRead, amountRead⟩

theorem LexedRow.exists_shows {lexed : LexedRow} (inRange : ¬ lexed.OutOfRange store) :
    ∃ row, lexed.Shows store row := by
  rw [OutOfRange, not_or, ← ne_eq, ← ne_eq, Option.ne_none_iff_exists', Option.ne_none_iff_exists']
    at inRange
  obtain ⟨⟨price, priceShown⟩, ⟨amount, amountShown⟩⟩ := inRange
  exact ⟨⟨lexed.orderId, price, amount⟩, rfl, priceShown, amountShown⟩

theorem exists_forall₂ {α β : Type} {relates : α → β → Prop} {xs : List α}
    (each : ∀ x ∈ xs, ∃ y, relates x y) : ∃ ys, List.Forall₂ relates xs ys := by
  induction xs with
  | nil => exact ⟨[], .nil⟩
  | cons x xs ih =>
    obtain ⟨y, first⟩ := each x List.mem_cons_self
    obtain ⟨ys, others⟩ := ih fun z listed => each z (List.mem_cons_of_mem x listed)
    exact ⟨y :: ys, .cons first others⟩

end Numbers

section Agreement

variable {D : Type} {store : ℚ → Option D} {s : List Char}

theorem Written.starts {text : WrittenFrame} (read : Written s text) :
    ∃ rest, Mark isSpace '[' s rest := by
  cases read with
  | heartbeat opened => exact opened.starts
  | snapshot opened => exact opened.starts
  | update opened => exact opened.starts

theorem Misread.starts (misread : Misread store s) : ∃ rest, Mark isSpace '[' s rest := by
  cases misread with
  | openHeartbeat opened => exact opened.starts
  | noRows opened => exact opened.starts
  | looseUpdate opened => exact opened.starts
  | looseSnapshot opened => exact opened.starts
  | updateRange read => exact read.starts
  | snapshotRange read => exact read.starts

theorem rows_of_agreement (agrees : ¬ Misread store s) {v : Int64} {rows : List LexedRow}
    {rest : List Char} {seqNo : UInt64} (opened : Opened s v (.rows rows) rest)
    (ends : Ending rest seqNo) : rows ≠ [] := by
  rintro rfl
  exact agrees (.noRows opened ends)

/-- What the grammar writes is accepted, as it is written, if it is none of the texts on
which the two part. -/
theorem accepts_written (agrees : ¬ Misread store s) {text : WrittenFrame} (read : Written s text) :
    ∃ frame, Accepted store s frame ∧ Shown store frame text := by
  cases read with
  | heartbeat opened closed => exact ⟨_, .heartbeat opened, .heartbeat⟩
  | snapshot opened plain ends =>
    have nonempty := rows_of_agreement agrees opened ends
    obtain ⟨rows, shows⟩ := exists_forall₂ fun row listed =>
      LexedRow.exists_shows fun range =>
        agrees (.snapshotRange (.snapshot opened plain ends) ⟨row, listed, range⟩)
    obtain ⟨reads, -⟩ := (rows_reads_iff opened.signed_rows).mpr ⟨plain, shows⟩
    obtain ⟨behind, tail, -⟩ := ending_snapshot.mp ends
    exact ⟨_, .snapshot opened nonempty reads tail, .snapshot shows⟩
  | update opened plain ends =>
    obtain ⟨row, shows⟩ := LexedRow.exists_shows fun range =>
      agrees (.updateRange (.update opened plain ends) range)
    obtain ⟨reads, -⟩ := (LexedRow.reads_iff opened.signed).mpr ⟨plain, shows⟩
    obtain ⟨behind, tail, -⟩ := ending_update.mp ends
    exact ⟨_, .update opened reads tail, .update shows⟩

theorem LexedRow.Reads.readable {lexed : LexedRow} {row : BookRow D}
    (reads : lexed.Reads store row) : lexed.Readable store :=
  ⟨Option.isSome_of_eq_some reads.price, Option.isSome_of_eq_some reads.amount⟩

theorem rows_readable {lexed : List LexedRow} {rows : List (BookRow D)}
    (reads : List.Forall₂ (LexedRow.Reads store) lexed rows) :
    ∀ row ∈ lexed, row.Readable store := by
  induction reads with
  | nil => exact List.forall_mem_nil _
  | cons first others ih => exact List.forall_mem_cons.mpr ⟨first.readable, ih⟩

/-- What is accepted is written by the grammar, as it is read, with the same exception. -/
theorem written_of_accepted (agrees : ¬ Misread store s) {frame : ParsedFrame D}
    (accepted : Accepted store s frame) : ∃ text, Written s text ∧ Shown store frame text := by
  cases accepted with
  | heartbeat opened =>
    have closed := not_not.mp fun loose => agrees (.openHeartbeat opened loose)
    exact ⟨_, .heartbeat opened closed, .heartbeat⟩
  | update opened reads tail =>
    have tight := mt (Misread.looseUpdate opened reads.readable tail) agrees
    rw [not_or, not_not] at tight
    obtain ⟨plain, shows⟩ := (LexedRow.reads_iff opened.signed).mp ⟨reads, tight.2⟩
    exact ⟨_, .update opened plain (ending_update.mpr ⟨_, tail, tight.1⟩), .update shows⟩
  | snapshot opened nonempty reads tail =>
    have tight := mt (Misread.looseSnapshot opened nonempty (rows_readable reads) tail) agrees
    rw [not_or, not_or, not_not] at tight
    obtain ⟨numbered, blank, single⟩ := tight
    obtain ⟨seqNo, rfl⟩ := Option.ne_none_iff_exists'.mp numbered
    obtain ⟨plain, shows⟩ := (rows_reads_iff opened.signed_rows).mp
      ⟨reads, fun row listed repeats => single ⟨row, listed, repeats⟩⟩
    exact ⟨_, .snapshot opened plain (ending_snapshot.mpr ⟨_, tail, blank⟩), .snapshot shows⟩

theorem LexedRow.Shows.inRange {lexed : LexedRow} {row : BookRow D}
    (shows : lexed.Shows store row) : ¬ lexed.OutOfRange store := by
  rintro (price | amount)
  · exact Option.some_ne_none _ (shows.price.symm.trans price)
  · exact Option.some_ne_none _ (shows.amount.symm.trans amount)

theorem rows_inRange {lexed : List LexedRow} {rows : List (BookRow D)}
    (shows : List.Forall₂ (LexedRow.Shows store) lexed rows) :
    ∀ row ∈ lexed, ¬ row.OutOfRange store := by
  induction shows with
  | nil => exact List.forall_mem_nil _
  | cons first others ih => exact List.forall_mem_cons.mpr ⟨first.inRange, ih⟩

/-- On the texts of the list the two do part. -/
theorem not_misread (follows : FollowsGrammar store s) : ¬ Misread store s := by
  intro misread
  have starts := misread.starts
  obtain ⟨complete, sound⟩ := follows starts
  simp only [parseFrame_iff starts] at complete sound
  cases misread with
  | openHeartbeat opened loose =>
    obtain ⟨text, read, shown⟩ := sound _ (.heartbeat opened)
    cases shown with
    | heartbeat =>
      cases read with
      | heartbeat opened' closed =>
        obtain ⟨-, -, rfl⟩ := opened.unique opened'
        exact loose closed
  | noRows opened ends =>
    obtain ⟨frame, accepted, -⟩ := complete _ (.snapshot opened (List.forall_mem_nil _) ends)
    cases accepted with
    | heartbeat opened' => exact Body.noConfusion (opened.unique opened').2.1
    | update opened' => exact Body.noConfusion (opened.unique opened').2.1
    | snapshot opened' nonempty =>
      exact nonempty (Body.rows.inj (opened.unique opened').2.1).symm
  | looseUpdate opened readable tail loose =>
    obtain ⟨row, reads⟩ := LexedRow.exists_reads readable
    obtain ⟨text, read, shown⟩ := sound _ (.update opened reads tail)
    cases shown with
    | update shows =>
      cases read with
      | update opened' plain ends =>
        obtain ⟨-, same, rfl⟩ := opened.unique opened'
        obtain rfl := Body.row.inj same
        obtain ⟨behind, tail', closed⟩ := ending_update.mp ends
        obtain ⟨-, rfl⟩ := tail.unique tail'
        have single := ((LexedRow.reads_iff opened.signed).mpr ⟨plain, shows⟩).2
        exact loose.elim (fun unclosed => unclosed closed) single
  | looseSnapshot opened nonempty readable tail loose =>
    obtain ⟨rows, reads⟩ := exists_forall₂ fun row listed =>
      LexedRow.exists_reads (readable row listed)
    obtain ⟨text, read, shown⟩ := sound _ (.snapshot opened nonempty reads tail)
    cases shown with
    | snapshot shows =>
      cases read with
      | snapshot opened' plain ends =>
        obtain ⟨-, same, rfl⟩ := opened.unique opened'
        obtain rfl := Body.rows.inj same
        obtain ⟨behind, tail', blank⟩ := ending_snapshot.mp ends
        obtain ⟨numbered, rfl⟩ := tail.unique tail'
        obtain ⟨-, single⟩ := (rows_reads_iff opened.signed_rows).mpr ⟨plain, shows⟩
        rcases loose with unnumbered | text_behind | ⟨row, listed, repeats⟩
        · exact Option.some_ne_none _ (numbered.symm.trans unnumbered)
        · exact text_behind blank
        · exact single row listed repeats
  | updateRange read range =>
    obtain ⟨frame, -, shown⟩ := complete _ read
    cases shown with
    | update shows => exact shows.inRange range
  | snapshotRange read range =>
    obtain ⟨frame, -, shown⟩ := complete _ read
    obtain ⟨row, listed, outside⟩ := range
    cases shown with
    | snapshot shows => exact rows_inRange shows row listed outside

/-- The scanner follows the grammar on every text but those of the list. -/
theorem follows_grammar_iff (store : ℚ → Option D) (s : List Char) :
    FollowsGrammar store s ↔ ¬ Misread store s := by
  constructor
  · exact not_misread
  · intro agrees starts
    simp only [parseFrame_iff starts]
    exact ⟨fun text read => accepts_written agrees read,
      fun frame accepted => written_of_accepted agrees accepted⟩

/-- An update that is cut behind its row is taken for a whole one. -/
theorem cut_update_accepted {channelId : Int64} {lexed : LexedRow} {row : BookRow D}
    (cut : Opened s channelId (.row lexed) []) (reads : lexed.Reads store row) :
    parseFrame store s = some (.update channelId ⟨row, 0⟩) := by
  refine (parseFrame_iff cut.starts).mpr (.update cut reads (.bare ?_))
  rintro rest ⟨space, -, empty⟩
  exact List.append_ne_nil_of_right_ne_nil space (List.cons_ne_nil _ _) empty.symm

/-- The grammar writes a snapshot without rows; the scanner refuses it. -/
theorem empty_snapshot_refused : ¬ FollowsGrammar (some : ℚ → Option ℚ) "[5,[]]".toList := by
  intro follows
  have number : ChanText "5,[]]".toList 5 ",[]]".toList :=
    ⟨"5".toList, run_digits_iff.mpr (by decide), by decide⟩
  have opened : Opened "[5,[]]".toList 5 (.rows []) "]".toList :=
    .opened ⟨[], by simp, rfl⟩ number ⟨[], by simp, rfl⟩
      (.noRows ⟨[], by simp, rfl⟩ ⟨[], by simp, rfl⟩)
  have closed : Closed "]".toList := ⟨[], ⟨[], by simp, rfl⟩, by simp [Blank]⟩
  obtain ⟨frame, parsed, -⟩ := (follows opened.starts).1 _
    (.snapshot opened (List.forall_mem_nil _) (.bare closed))
  have refused : parseFrame (some : ℚ → Option ℚ) "[5,[]]".toList = none := rfl
  rw [refused] at parsed
  contradiction

end Agreement

end WireParse

end Bitfinex

end FeedHandler
