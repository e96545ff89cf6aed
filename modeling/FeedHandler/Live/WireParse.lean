import FeedHandler.Lib.TextTokens
import FeedHandler.Live.ResyncStateMachine

/-! The scanner for Bitfinex frames. A position in the text is what stands from there on.
`store` is the double that `from_chars` stores for a number, where the number is in range.
What a refused frame leaves in the out parameter is not kept. -/
namespace FeedHandler

open DecimalText TextTokens

namespace Bitfinex

/-- The kind of a frame with the part of it that this kind fills. -/
inductive ParsedFrame (D : Type) where
  | snapshot (channelId : Int64) (frame : SnapshotFrame D)
  | update (channelId : Int64) (frame : UpdateFrame D)
  | heartbeat
  | control (event : List Char)

namespace WireParse

def isSpace (c : Char) : Bool := c = ' ' ∨ '\t' ≤ c ∧ c ≤ '\r'

def skipWs (s : List Char) : List Char := s.dropWhile isSpace

/-- The integer as `from_chars` stores it, if it is in range. -/
def fromCharsI64 (text : List Char) : Option Int64 :=
  let v := writtenInt text
  if -2 ^ 63 ≤ v ∧ v < 2 ^ 63 then some (Int64.ofInt v) else none

/-- The position moves behind the digits whether or not they are stored. -/
def parseI64 (s : List Char) : Option Int64 × List Char :=
  let (text, rest) := scanRun Char.isDigit (skipWs s)
  (if text = [] ∨ text = ['-'] then none else fromCharsI64 text, rest)

def parseU64 (s : List Char) : Option UInt64 × List Char :=
  let (v, rest) := parseI64 s
  (v.bind fun v => if v < 0 then none else some v.toUInt64, rest)

def expect (c : Char) (s : List Char) : Option (List Char) :=
  match skipWs s with
  | d :: rest => if d = c then some rest else none
  | [] => none

/-- A string that is not closed takes the position to the end. -/
def parseStringToken (s : List Char) : Option (List Char) × List Char :=
  match skipWs s with
  | '"' :: body =>
    match body.dropWhile (· != '"') with
    | _ :: rest => (some (body.takeWhile (· != '"')), rest)
    | [] => (none, [])
  | s => (none, s)

/-- A value that was read, with the text behind it. -/
def accepted {α : Type} (read : Option α × List Char) : Option (α × List Char) :=
  read.1.map fun value => (value, read.2)

/-- The sequence behind a comma. Digits that are no sequence are skipped. -/
def skipSequence (s : List Char) : UInt64 × List Char :=
  match expect ',' s with
  | some s => ((parseU64 s).1.getD 0, (parseU64 s).2)
  | none => (0, s)

section Frames

variable {D : Type} (store : ℚ → Option D)

/-- The number that the longest prefix spells, as it is stored. -/
def fromCharsDouble (text : List Char) : Option D := (readDecimal text).bind store

def parseDouble (s : List Char) : Option D × List Char :=
  let (text, rest) := scanRun digitOrPoint (skipWs s)
  (if text = [] ∨ text = ['-'] then none else fromCharsDouble store text, rest)

def parseRow (s : List Char) : Option (BookRow D × List Char) := do
  let s ← expect '[' s
  let (orderId, s) ← accepted (parseU64 s)
  let s ← expect ',' s
  let (price, s) ← accepted (parseDouble store s)
  let s ← expect ',' s
  let (amount, s) ← accepted (parseDouble store s)
  let s ← expect ']' s
  return (⟨orderId, price, amount⟩, s)

/-- The loop over the rows. Each round takes a bracket at least, so the length of the text
bounds the rounds. -/
def parseRows : Nat → List Char → Option (List (BookRow D) × List Char)
  | 0, _ => none
  | rounds + 1, s => do
    let (row, s) ← parseRow store s
    match expect ']' s with
    | some s => return ([row], s)
    | none =>
      let s ← expect ',' s
      let (rows, s) ← parseRows rounds s
      return (row :: rows, s)

def parseSnapshotRows (s : List Char) : Option (List (BookRow D) × List Char) := do
  let s ← expect '[' s
  match expect ']' s with
  | some s => return ([], s)
  | none => parseRows store s.length s

/-- Behind the closing bracket anything goes. -/
def parseSnapshot (channelId : Int64) (s : List Char) : Option (ParsedFrame D) := do
  let (rows, s) ← parseSnapshotRows store s
  let (sequence, s) := skipSequence s
  let _ ← expect ']' s
  return .snapshot channelId ⟨rows, sequence⟩

/-- The closing bracket is not asked for. -/
def parseUpdate (channelId : Int64) (s : List Char) : Option (ParsedFrame D) := do
  let (row, s) ← parseRow store s
  match expect ',' s with
  | some s => (parseU64 s).1.map fun sequence => .update channelId ⟨row, sequence⟩
  | none => return .update channelId ⟨row, 0⟩

/-- What stands behind the channel id: two brackets in a row open a snapshot. -/
def parseBody (channelId : Int64) (s : List Char) : Option (ParsedFrame D) :=
  match skipWs s with
  | '"' :: _ => do
    let tag ← (parseStringToken s).1
    if tag = "hb".toList then some .heartbeat else none
  | '[' :: inner =>
    if (skipWs inner).head? = some '[' then parseSnapshot store channelId s
    else parseUpdate store channelId s
  | _ => none

def parseArray (s : List Char) : Option (ParsedFrame D) := do
  let (channelId, s) ← accepted (parseI64 s)
  let s ← expect ',' s
  parseBody store channelId s

/-- The value of a member: an event is kept if it can be read, any other value is skipped. -/
def controlValue (key s event : List Char) : List Char × List Char :=
  if key = "event".toList then ((parseStringToken s).1.getD event, (parseStringToken s).2)
  else if (skipWs s).head? = some '"' then (event, (parseStringToken s).2)
  else (event, (parseDouble store s).2)

/-- The members of a control message; the last event that could be read is kept. -/
def controlEvent : Nat → List Char → List Char → List Char
  | 0, _, event => event
  | rounds + 1, s, event =>
    match accepted (parseStringToken s) with
    | none => event
    | some (key, s) =>
      match expect ':' s with
      | none => event
      | some s =>
        let (event, s) := controlValue store key s event
        match expect ',' s with
        | some s => controlEvent rounds s event
        | none => event

def parseFrame (json : List Char) : Option (ParsedFrame D) :=
  match expect '[' json with
  | some s => parseArray store s
  | none => do
    let s ← expect '\x7b' json
    let event := controlEvent store s.length s []
    if event = [] then none else some (.control event)

end Frames

section Rounds

variable {D : Type} {store : ℚ → Option D} {s rest : List Char}

theorem skipWs_le (s : List Char) : (skipWs s).length ≤ s.length :=
  (List.dropWhile_sublist isSpace).length_le

theorem expect_shorter {c : Char} (read : expect c s = some rest) : rest.length < s.length := by
  have skipped := skipWs_le s
  rw [expect] at read
  split at read
  · next d behind first =>
    split at read
    case isTrue =>
      obtain rfl := Option.some.inj read
      rw [first, List.length_cons] at skipped
      omega
    case isFalse => contradiction
  · contradiction

/-- A string that is read takes its quotes at least. -/
theorem parseStringToken_rest (s : List Char) : (parseStringToken s).2.length ≤ s.length ∧
    ((parseStringToken s).1.isSome → (parseStringToken s).2.length < s.length) := by
  have skipped := skipWs_le s
  unfold parseStringToken
  split
  · next body opens =>
    have cut := (List.dropWhile_sublist (l := body) (· != '"')).length_le
    rw [opens, List.length_cons] at skipped
    split
    · next c rest stops =>
      rw [stops, List.length_cons] at cut
      constructor
      · simp only
        omega
      · intro _
        simp only
        omega
    · exact ⟨Nat.zero_le _, fun found => absurd found (by simp)⟩
  · exact ⟨skipped, fun found => absurd found (by simp)⟩

theorem parseStringToken_shorter {text : List Char}
    (read : accepted (parseStringToken s) = some (text, rest)) : rest.length < s.length := by
  obtain ⟨found, some_found, same⟩ := Option.map_eq_some_iff.mp read
  obtain ⟨-, rfl⟩ := Prod.mk.inj same
  exact (parseStringToken_rest s).2 (Option.isSome_of_eq_some some_found)

theorem parseDouble_le (store : ℚ → Option D) (s : List Char) :
    (parseDouble store s).2.length ≤ s.length := by
  have split : (scanRun digitOrPoint _).1 ++ _ = _ := scanRun_append (skipWs s)
  have whole := congrArg List.length split
  have skipped := skipWs_le s
  rw [List.length_append] at whole
  simp only [parseDouble]
  omega

theorem controlValue_le (store : ℚ → Option D) (key s event : List Char) :
    (controlValue store key s event).2.length ≤ s.length := by
  unfold controlValue
  split
  · exact (parseStringToken_rest s).1
  · split
    · exact (parseStringToken_rest s).1
    · exact parseDouble_le store s

theorem controlEvent_nil (rounds : Nat) (event : List Char) :
    controlEvent store rounds [] event = event := by
  cases rounds <;> rfl

/-- The rounds never run out: as many as the text is long keep the event that any more
would. -/
theorem controlEvent_rounds {rounds more : Nat} (event : List Char) (enough : s.length ≤ rounds)
    (further : s.length ≤ more) :
    controlEvent store rounds s event = controlEvent store more s event := by
  induction rounds generalizing s more event with
  | zero =>
    rw [List.length_eq_zero_iff.mp (Nat.le_zero.mp enough), controlEvent_nil, controlEvent_nil]
  | succ rounds ih =>
    cases more with
    | zero =>
      rw [List.length_eq_zero_iff.mp (Nat.le_zero.mp further), controlEvent_nil, controlEvent_nil]
    | succ more =>
      simp only [controlEvent]
      split
      · rfl
      · next key s₁ read =>
        split
        · rfl
        · next s₂ colon =>
          have shorter := parseStringToken_shorter read
          have onward := expect_shorter colon
          have kept := controlValue_le store key s₂ event
          split
          · next s₃ comma =>
            have last := expect_shorter comma
            exact ih _ (by omega) (by omega)
          · rfl

end Rounds

end WireParse

end Bitfinex

end FeedHandler
