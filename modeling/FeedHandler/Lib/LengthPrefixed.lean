import FeedHandler.Lib.BigEndian

/-! Records behind a big-endian length in a byte string. Every byte string is in one way a
run of complete records followed by a truncated one. -/
namespace LengthPrefixed

/-- A record with its length in front. -/
def encode (width : Nat) (body : List UInt8) : List UInt8 :=
  BigEndian.toBytes width body.length ++ body

/-- The bytes end within the length field or within the record it announces. -/
def Truncated (width : Nat) (bytes : List UInt8) : Prop :=
  bytes.length < width ∨ bytes.length < width + BigEndian.readAt bytes 0 width

/-- The bytes are the records `bodies` and behind them `rest`, which is truncated. -/
structure Splits (width : Nat) (bytes : List UInt8) (bodies : List (List UInt8))
    (rest : List UInt8) : Prop where
  whole : bytes = bodies.flatMap (encode width) ++ rest
  fits : ∀ body ∈ bodies, body.length < 256 ^ width
  truncated : Truncated width rest

section Records

variable {width : Nat} {bytes body rest : List UInt8} {bodies : List (List UInt8)}

theorem length_encode : (encode width body).length = width + body.length := by
  rw [encode, List.length_append, BigEndian.length_toBytes]

theorem readAt_encode (fits : body.length < 256 ^ width) :
    BigEndian.readAt (encode width body ++ rest) 0 width = body.length := by
  rw [encode, List.append_assoc, BigEndian.readAt_here, Nat.mod_eq_of_lt fits]

theorem drop_encode : (encode width body ++ rest).drop (width + body.length) = rest :=
  List.drop_left' length_encode

theorem take_encode : ((encode width body ++ rest).drop width).take body.length = body := by
  rw [encode, List.append_assoc, List.drop_left' (BigEndian.length_toBytes _ _), List.take_left]

theorem not_truncated_encode (fits : body.length < 256 ^ width) :
    ¬ Truncated width (encode width body ++ rest) := by
  rw [Truncated, readAt_encode fits, List.length_append, length_encode]
  omega

/-- A complete record in front, taken apart. -/
theorem eq_encode (complete : ¬ Truncated width bytes) :
    ∃ body, body.length = BigEndian.readAt bytes 0 width ∧ body.length < 256 ^ width ∧
      bytes = encode width body ++ bytes.drop (width + body.length) := by
  rw [Truncated, not_or] at complete
  refine ⟨(bytes.drop width).take (BigEndian.readAt bytes 0 width), ?_⟩
  have size : ((bytes.drop width).take (BigEndian.readAt bytes 0 width)).length =
      BigEndian.readAt bytes 0 width := by
    rw [List.length_take, List.length_drop]
    omega
  have header : (bytes.take width).length = width := by
    rw [List.length_take]
    omega
  have spelled : BigEndian.readAt bytes 0 width = BigEndian.ofBytes (bytes.take width) := rfl
  have back := BigEndian.toBytes_ofBytes (bytes.take width)
  rw [header, ← spelled] at back
  refine ⟨size, ?_, ?_⟩
  · have bound := BigEndian.ofBytes_lt (bytes.take width)
    rwa [header, ← spelled, ← size] at bound
  · rw [encode, size, back, ← List.drop_drop, List.append_assoc, List.take_append_drop,
      List.take_append_drop]

theorem Splits.nil_iff : Splits width bytes [] rest ↔ rest = bytes ∧ Truncated width bytes := by
  constructor
  · intro split
    obtain rfl : bytes = rest := split.whole
    exact ⟨rfl, split.truncated⟩
  · rintro ⟨rfl, truncated⟩
    exact ⟨rfl, fun body listed => absurd listed List.not_mem_nil, truncated⟩

theorem Splits.cons_iff : Splits width bytes (body :: bodies) rest ↔
    body.length < 256 ^ width ∧ ∃ later, bytes = encode width body ++ later ∧
      Splits width later bodies rest := by
  constructor
  · rintro ⟨whole, fits, truncated⟩
    rw [List.flatMap_cons, List.append_assoc] at whole
    exact ⟨fits body List.mem_cons_self, _, whole,
      rfl, fun other listed => fits other (List.mem_cons_of_mem body listed), truncated⟩
  · rintro ⟨small, later, rfl, whole, fits, truncated⟩
    refine ⟨?_, ?_, truncated⟩
    · rw [List.flatMap_cons, List.append_assoc, ← whole]
    · intro other listed
      cases List.mem_cons.mp listed with
      | inl same => rwa [same]
      | inr later => exact fits other later

/-- Every record takes a byte at least. -/
theorem Splits.length_le (split : Splits width bytes bodies rest) (wide : 0 < width) :
    bodies.length ≤ bytes.length := by
  induction bodies generalizing bytes with
  | nil => exact Nat.zero_le _
  | cons body bodies ih =>
    obtain ⟨-, later, rfl, behind⟩ := Splits.cons_iff.mp split
    have := ih behind
    rw [List.length_cons, List.length_append, length_encode]
    omega

/-- There is a splitting of every byte string, as no record is empty with its length. -/
theorem exists_splits (wide : 0 < width) (bytes : List UInt8) :
    ∃ bodies rest, Splits width bytes bodies rest := by
  by_cases truncated : Truncated width bytes
  · exact ⟨[], bytes, Splits.nil_iff.mpr ⟨rfl, truncated⟩⟩
  · obtain ⟨body, -, small, whole⟩ := eq_encode truncated
    have shorter : (bytes.drop (width + body.length)).length < bytes.length := by
      have size := congrArg List.length whole
      rw [List.length_append, length_encode] at size
      omega
    obtain ⟨bodies, rest, split⟩ := exists_splits wide (bytes.drop (width + body.length))
    exact ⟨body :: bodies, rest, Splits.cons_iff.mpr ⟨small, _, whole, split⟩⟩
termination_by bytes.length

/-- The splitting of a byte string is unique. -/
theorem Splits.unique (split : Splits width bytes bodies rest) {others : List (List UInt8)}
    {left : List UInt8} (other : Splits width bytes others left) : others = bodies := by
  induction bodies generalizing bytes others with
  | nil =>
    obtain ⟨-, truncated⟩ := Splits.nil_iff.mp split
    cases others with
    | nil => rfl
    | cons body others =>
      obtain ⟨small, later, rfl, -⟩ := Splits.cons_iff.mp other
      exact absurd truncated (not_truncated_encode small)
  | cons body bodies ih =>
    obtain ⟨small, later, whole, behind⟩ := Splits.cons_iff.mp split
    cases others with
    | nil =>
      rw [whole] at other
      exact absurd (Splits.nil_iff.mp other).2 (not_truncated_encode small)
    | cons first others =>
      obtain ⟨firstSmall, firstLater, firstWhole, firstBehind⟩ := Splits.cons_iff.mp other
      have size : first.length = body.length := by
        rw [← readAt_encode firstSmall, ← firstWhole, whole, readAt_encode small]
      have same : first = body := by
        calc first = (bytes.drop width).take first.length := by rw [firstWhole, take_encode]
          _ = body := by rw [size, whole, take_encode]
      have remaining : firstLater = later := by
        calc firstLater = bytes.drop (width + first.length) := by rw [firstWhole, drop_encode]
          _ = later := by rw [size, whole, drop_encode]
      rw [remaining] at firstBehind
      rw [same, ih behind firstBehind]

end Records

end LengthPrefixed
