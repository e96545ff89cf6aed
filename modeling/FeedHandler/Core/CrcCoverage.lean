import FeedHandler.Core.Crc32

/-! Which changes of an event the determinism witness sees. The fold is one checksum over
the hashed fields of all events in a row, so a change of one hashed field of at most four
bytes always shows at its end; the side of an event is not among these fields. -/
namespace FeedHandler

/-- The bytes of an event that enter the witness. -/
def crcFields (ev : BookEvent) : List UInt8 :=
  [ev.venue.code] ++ ([ev.type.code] ++ (memoryBytes 8 ev.sequence.toNat ++
  (memoryBytes 8 ev.exchangeTsNs.toNat ++ (ev.symbol.bytes.toList ++
  (memoryBytes 8 ev.orderId.toNat ++ (memoryBytes 4 ev.qty.toNat ++
  memoryBytes 4 ev.price.toNat))))))

theorem updateCrcFromBookEvent_eq (crc : UInt32) (ev : BookEvent) :
    updateCrcFromBookEvent crc ev = crc32Update crc (crcFields ev) := by
  simp only [updateCrcFromBookEvent, crcFields, crc32Update_append]

theorem foldl_updateCrcFromBookEvent (crc : UInt32) (events : List BookEvent) :
    events.foldl updateCrcFromBookEvent crc = crc32Update crc (events.flatMap crcFields) := by
  induction events generalizing crc with
  | nil => simp [crc32Update]
  | cons ev rest ih =>
    rw [List.foldl_cons, ih, updateCrcFromBookEvent_eq, List.flatMap_cons, crc32Update_append]

theorem EventType.code_inj {a b : EventType} (same : a.code = b.code) : a = b := by
  cases a <;> cases b <;> first | rfl | exact absurd same (by decide)

theorem length_memoryBytes (width value : Nat) : (memoryBytes width value).length = width := by
  simp [memoryBytes]

theorem memoryBytes_inj {a b : UInt32} :
    memoryBytes 4 a.toNat = memoryBytes 4 b.toNat ↔ a = b := by
  constructor
  · intro same
    have byte : ∀ i < 4, a.toNat / 2 ^ (8 * i) % 2 ^ 8 = b.toNat / 2 ^ (8 * i) % 2 ^ 8 := by
      intro i inside
      have read := congrArg (fun bytes : List UInt8 => (bytes.getD i 0).toNat) same
      simpa [memoryBytes, inside, Nat.shiftRight_eq_div_pow] using read
    have first := byte 0 (by decide)
    have second := byte 1 (by decide)
    have third := byte 2 (by decide)
    have fourth := byte 3 (by decide)
    have small := a.toNat_lt
    have bound := b.toNat_lt
    apply UInt32.toNat_inj.mp
    omega
  · rintro rfl
    rfl

/-- A field of the event in which two replays may differ. -/
inductive EventField where
  | venue
  | type
  | side
  | qty
  | price
  deriving DecidableEq, Repr

/-- The events differ in this field alone. -/
def EventField.Changes : EventField → BookEvent → BookEvent → Prop
  | .venue, a, b => a.venue ≠ b.venue ∧ b = { a with venue := b.venue }
  | .type, a, b => a.type ≠ b.type ∧ b = { a with type := b.type }
  | .side, a, b => a.side ≠ b.side ∧ b = { a with side := b.side }
  | .qty, a, b => a.qty ≠ b.qty ∧ b = { a with qty := b.qty }
  | .price, a, b => a.price ≠ b.price ∧ b = { a with price := b.price }

/-- A change of a hashed field changes at most four of the hashed bytes. -/
theorem EventField.Changes.burst {field : EventField} {a b : BookEvent}
    (changed : field.Changes a b) (hashed : field ≠ .side) :
    ∃ pre u v post, crcFields a = pre ++ (u ++ post) ∧ crcFields b = pre ++ (v ++ post) ∧
      u ≠ v ∧ u.length = v.length ∧ u.length ≤ 4 := by
  cases field with
  | venue =>
    obtain ⟨differs, same⟩ := changed
    refine ⟨[], [a.venue.code], [b.venue.code], _, rfl, ?_, ?_, rfl, Nat.le_add_left 1 3⟩
    · rw [same]
      rfl
    · exact fun codes => differs (Venue.code_inj (List.singleton_inj.mp codes))
  | type =>
    obtain ⟨differs, same⟩ := changed
    refine ⟨[a.venue.code], [a.type.code], [b.type.code], _, rfl, ?_, ?_, rfl,
      Nat.le_add_left 1 3⟩
    · rw [same]
      rfl
    · exact fun codes => differs (EventType.code_inj (List.singleton_inj.mp codes))
  | side => exact absurd rfl hashed
  | qty =>
    obtain ⟨differs, same⟩ := changed
    refine ⟨[a.venue.code] ++ ([a.type.code] ++ (memoryBytes 8 a.sequence.toNat ++
        (memoryBytes 8 a.exchangeTsNs.toNat ++ (a.symbol.bytes.toList ++
        memoryBytes 8 a.orderId.toNat)))),
      memoryBytes 4 a.qty.toNat, memoryBytes 4 b.qty.toNat, memoryBytes 4 a.price.toNat,
      ?_, ?_, ?_, ?_, ?_⟩
    · simp only [crcFields, List.append_assoc]
    · rw [same]
      simp only [crcFields, List.append_assoc]
    · rwa [ne_eq, memoryBytes_inj]
    · rw [length_memoryBytes, length_memoryBytes]
    · rw [length_memoryBytes]
  | price =>
    obtain ⟨differs, same⟩ := changed
    refine ⟨[a.venue.code] ++ ([a.type.code] ++ (memoryBytes 8 a.sequence.toNat ++
        (memoryBytes 8 a.exchangeTsNs.toNat ++ (a.symbol.bytes.toList ++
        (memoryBytes 8 a.orderId.toNat ++ memoryBytes 4 a.qty.toNat))))),
      memoryBytes 4 a.price.toNat, memoryBytes 4 b.price.toNat, [], ?_, ?_, ?_, ?_, ?_⟩
    · simp only [crcFields, List.append_assoc, List.append_nil]
    · rw [same]
      simp only [crcFields, List.append_assoc, List.append_nil]
    · rwa [ne_eq, memoryBytes_inj]
    · rw [length_memoryBytes, length_memoryBytes]
    · rw [length_memoryBytes]

/-- Of two replays that differ in one field of one event, the witnesses differ exactly if
the field is not the side. -/
theorem crc_sees_change_iff (crc : UInt32) (before after : List BookEvent) {a b : BookEvent}
    (field : EventField) (changed : field.Changes a b) :
    (before ++ a :: after).foldl updateCrcFromBookEvent crc ≠
        (before ++ b :: after).foldl updateCrcFromBookEvent crc ↔ field ≠ .side := by
  rw [foldl_updateCrcFromBookEvent, foldl_updateCrcFromBookEvent, List.flatMap_append,
    List.flatMap_append, List.flatMap_cons, List.flatMap_cons]
  constructor
  · rintro differs rfl
    obtain ⟨_, same⟩ := changed
    apply differs
    rw [same]
    rfl
  · intro hashed
    obtain ⟨pre, u, v, post, ofA, ofB, differs, long, short⟩ := changed.burst hashed
    have burst := burst_of_bytes long short (before.flatMap crcFields ++ pre)
      (post ++ after.flatMap crcFields)
    have detected := crc32Update_burst burst crc
    simp only [List.append_assoc, ofA, ofB] at detected ⊢
    rw [ne_eq, detected]
    simpa using differs

/-- A quantity altered in the middle of a replay shows. -/
theorem crc_sees_quantity :
    ([({} : BookEvent)] ++ ({ qty := 7 } : BookEvent) :: [{}]).foldl updateCrcFromBookEvent 0 ≠
      ([({} : BookEvent)] ++ ({ qty := 8 } : BookEvent) :: [{}]).foldl updateCrcFromBookEvent 0 :=
  (crc_sees_change_iff 0 [{}] [{}] .qty ⟨by decide, rfl⟩).mpr (by decide)

/-- A flipped side does not show: both replays have the same witness. -/
theorem flipped_side_keeps_crc :
    EventField.side.Changes { side := .buy } { side := .sell } ∧
      [({ side := .buy } : BookEvent)].foldl updateCrcFromBookEvent 0 =
        [({ side := .sell } : BookEvent)].foldl updateCrcFromBookEvent 0 :=
  ⟨⟨by decide, rfl⟩, rfl⟩

end FeedHandler
