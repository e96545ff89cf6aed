import FeedHandler.Lib.DecimalText
import FeedHandler.Lib.TextSearch
import FeedHandler.Live.Lowering

/-! The sidecar file that holds the book a journal starts from. The writer prints prices
and amounts with seventeen digits; the reader searches the text for its keys. Numbers are
exact, so that what is printed is all of them, and none is out of the range of a double. -/
namespace FeedHandler

open DecimalText TextSearch

namespace Bitfinex

def BookRow.map {D E : Type*} (f : D → E) (row : BookRow D) : BookRow E where
  orderId := row.orderId
  price := f row.price
  amount := f row.amount

structure SnapshotSidecar (D : Type*) where
  version : UInt32 := 1
  symbol : List Char := []
  cutSequence : UInt64 := 0
  exchangeTsNs : UInt64 := 0
  rows : List (BookRow D) := []

/-- The files a sidecar may be written to or read from. -/
abbrev SidecarFiles (Path : Type*) := Path → Option (List Char)

namespace SnapshotSidecar

def special (c : Char) : Bool := c == '"' || c == '\\'

def escapeJson (symbol : List Char) : List Char :=
  symbol.flatMap fun c => if special c then ['\\', c] else [c]

def rowText (row : BookRow (Decimal 17)) : List Char :=
  "    \x7b\"order_id\": ".toList ++ Nat.toDigits 10 row.orderId.toNat ++
    ", \"price\": ".toList ++ row.price.text ++ ", \"amount\": ".toList ++ row.amount.text ++
    "\x7d".toList

/-- A comma stands behind every row but the last. -/
def rowsText : List (BookRow (Decimal 17)) → List Char
  | [] => []
  | [row] => rowText row ++ "\n".toList
  | row :: next :: rows => rowText row ++ ",\n".toList ++ rowsText (next :: rows)

def text (sidecar : SnapshotSidecar (Decimal 17)) : List Char :=
  "\x7b\n  \"version\": ".toList ++ Nat.toDigits 10 sidecar.version.toNat ++
    ",\n  \"symbol\": \"".toList ++ escapeJson sidecar.symbol ++
    "\",\n  \"cut_sequence\": ".toList ++ Nat.toDigits 10 sidecar.cutSequence.toNat ++
    ",\n  \"exchange_ts_ns\": ".toList ++ Nat.toDigits 10 sidecar.exchangeTsNs.toNat ++
    ",\n  \"rows\": [\n".toList ++ rowsText sidecar.rows ++ "  ]\n\x7d\n".toList

def writeSidecar {Path : Type*} [DecidableEq Path] (files : SidecarFiles Path) (path : Path)
    (sidecar : SnapshotSidecar (Decimal 17)) : SidecarFiles Path :=
  Function.update files path (some sidecar.text)

def symbolKey : List Char := "\"symbol\"".toList
def orderIdKey : List Char := "\"order_id\"".toList
def priceKey : List Char := "\"price\"".toList
def amountKey : List Char := "\"amount\"".toList

/-- What stands between the two quotes behind the key. -/
def readSymbol (json : List Char) : List Char :=
  match find symbolKey json with
  | none => []
  | some key =>
    match find ['"'] (key.drop 8) with
    | none => []
    | some first =>
      match find ['"'] (first.drop 1) with
      | none => []
      | some last => (first.drop 1).take ((first.drop 1).length - last.length)

/-- The product and the sum wrap. -/
def readOrderId (digits : List Char) : UInt64 :=
  digits.foldl (fun oid c => oid * 10 + UInt64.ofNat (c.toNat - '0'.toNat)) 0

def numeric (c : Char) : Bool := c == '-' || c == '.' || c.isDigit

def blank (c : Char) : Bool := c == ' ' || c == '\t'

def parseNum (key : List Char) : Option ℚ :=
  match find [':'] key with
  | none => none
  | some colon => readDecimal (((colon.drop 1).dropWhile blank).takeWhile numeric)

/-- The row whose key stands first, and what the search goes on with. -/
def readRow (here : List Char) : Option (BookRow ℚ × List Char) := do
  let colon ← find [':'] here
  let digits := (colon.drop 1).dropWhile fun c => !c.isDigit
  let priceAt ← find priceKey here
  let amountAt ← find amountKey here
  let price ← parseNum priceAt
  let amount ← parseNum amountAt
  return (⟨readOrderId (digits.takeWhile Char.isDigit), price, amount⟩, amountAt.drop 8)

/-- Each round starts further on in the text, so its length bounds the rounds. -/
def readRows : Nat → List Char → List (BookRow ℚ)
  | 0, _ => []
  | rounds + 1, json =>
    match find orderIdKey json with
    | none => []
    | some here =>
      match readRow here with
      | none => []
      | some (row, rest) => row :: readRows rounds rest

def ofText (json : List Char) : SnapshotSidecar ℚ where
  symbol := readSymbol json
  rows := readRows json.length json

def readSidecar {Path : Type*} (files : SidecarFiles Path) (path : Path)
    (out : SnapshotSidecar ℚ) : Bool × SnapshotSidecar ℚ :=
  match files path with
  | none => (false, out)
  | some json =>
    let read := ofText json
    (!read.rows.isEmpty || !read.symbol.isEmpty, read)

section Rounds

theorem readRow_shorter {here rest : List Char} {row : BookRow ℚ}
    (read : readRow here = some (row, rest)) : rest.length < here.length := by
  simp only [readRow, Option.bind_eq_bind, Option.bind_eq_some_iff] at read
  obtain ⟨colon, -, priceAt, -, amountAt, hit, price, -, amount, -, same⟩ := read
  obtain rfl := congrArg Prod.snd (Option.some.inj same)
  obtain ⟨ends, starts⟩ := find_some hit
  have inside := ends.length_le
  have wide : 8 ≤ amountAt.length := starts.length_le
  show (amountAt.drop 8).length < here.length
  rw [List.length_drop]
  omega

theorem readRows_nil (rounds : Nat) : readRows rounds [] = [] := by
  cases rounds <;> rfl

/-- The rounds never run out: as many as the text is long read what any more would. -/
theorem readRows_rounds {rounds more : Nat} {json : List Char} (enough : json.length ≤ rounds)
    (further : json.length ≤ more) : readRows rounds json = readRows more json := by
  induction rounds generalizing more json with
  | zero => rw [List.length_eq_zero_iff.mp (Nat.le_zero.mp enough), readRows_nil, readRows_nil]
  | succ rounds ih =>
    cases more with
    | zero => rw [List.length_eq_zero_iff.mp (Nat.le_zero.mp further), readRows_nil, readRows_nil]
    | succ more =>
      simp only [readRows]
      split
      · rfl
      · next here hit =>
        split
        · rfl
        · next row rest read =>
          have shorter := (readRow_shorter read).trans_le (find_some hit).1.length_le
          rw [ih (Nat.le_of_lt_succ (shorter.trans_le enough))
            (Nat.le_of_lt_succ (shorter.trans_le further))]

end Rounds

end SnapshotSidecar

end Bitfinex

end FeedHandler
