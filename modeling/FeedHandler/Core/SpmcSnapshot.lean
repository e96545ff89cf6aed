import FeedHandler.Core.SpmcSeqlockRing

/-! Why a copy that overlaps a write is not returned. The versions of a slot only advance,
and under one settled version the slot keeps one value: a reader that meets the same version
before and after its copy has copied that value. -/
namespace FeedHandler
namespace Spmc

open SharedProgram

variable {W : Type} {width bits : Nat}

/-- How far a slot has come: never written, being written, written, for growing sequences. -/
def rank (version : UInt64) : Nat :=
  if version = encodeVersion kNeverWrittenSequence false then 0
  else 2 * (version.toNat / 2) + (if version.toNat % 2 = 1 then 1 else 2)

theorem rank_fresh : rank (encodeVersion kNeverWrittenSequence false) = 0 := if_pos rfl

theorem rank_encode {seq : UInt64} {b : Bool} (few : seq.toNat < 2 ^ 62) :
    rank (encodeVersion seq b) = 2 * seq.toNat + (if b then 1 else 2) := by
  have value := encodeVersion_toNat (b := b) (show seq.toNat < 2 ^ 63 by omega)
  have never : (encodeVersion kNeverWrittenSequence false).toNat = 2 * (2 ^ 63 - 1) := by decide
  have flag : (if b then 1 else 0 : Nat) ≤ 1 := by cases b <;> decide
  have apart : encodeVersion seq b ≠ encodeVersion kNeverWrittenSequence false := by
    intro same
    rw [same, never] at value
    omega
  rw [rank, if_neg apart, value]
  cases b with
  | true =>
    simp only [if_true]
    rw [if_pos (by omega)]
    omega
  | false =>
    simp only [Bool.false_eq_true, if_false]
    rw [if_neg (by omega)]
    omega

/-- What the writer can make of a slot. -/
def Slot.Later (a b : Slot W width) : Prop :=
  rank a.version < rank b.version ∨
    (b.version = a.version ∧ (isWriteInProgress a.version = true ∨ b.value = a.value))

theorem Slot.Later.refl (a : Slot W width) : a.Later a := .inr ⟨rfl, .inr rfl⟩

theorem Slot.Later.rank_le {a b : Slot W width} (later : a.Later b) :
    rank a.version ≤ rank b.version := by
  rcases later with advanced | ⟨same, _⟩
  · exact advanced.le
  · rw [same]

theorem Slot.Later.trans {a b c : Slot W width} (first : a.Later b) (second : b.Later c) :
    a.Later c := by
  have low := first.rank_le
  have high := second.rank_le
  rcases first with advanced | ⟨sameFirst, valueFirst⟩
  · exact .inl (advanced.trans_le high)
  · rcases second with advanced | ⟨sameSecond, valueSecond⟩
    · exact .inl (low.trans_lt advanced)
    · refine .inr ⟨sameSecond.trans sameFirst, ?_⟩
      rw [sameFirst] at valueSecond
      rcases valueFirst with writing | kept
      · exact .inl writing
      · exact valueSecond.imp id (fun last => last.trans kept)

/-- A version that is met twice was there all the time in between. -/
theorem Slot.Later.version_between {a b c : Slot W width} (first : a.Later b)
    (second : b.Later c) (again : c.version = a.version) : b.version = a.version := by
  have high := second.rank_le
  rcases first with advanced | ⟨same, _⟩
  · rw [again] at high
    omega
  · exact same

/-- A settled version keeps its value. -/
theorem Slot.Later.value_kept {a b : Slot W width} (later : a.Later b)
    (same : b.version = a.version) (settled : isWriteInProgress a.version = false) :
    b.value = a.value := by
  rcases later with advanced | ⟨_, writing | kept⟩
  · rw [same] at advanced
    exact absurd advanced (Nat.lt_irrefl _)
  · rw [settled] at writing
    contradiction
  · exact kept

/-- The memory of a ring whose publications are those of `items`: what a slot holds under a
sequence's version is the item of that sequence. -/
structure Faithful (items : List (Item W width)) (m : Memory W width bits) : Prop where
  published : m.publishedSequence.toNat ≤ items.length
  values : ∀ seq : UInt64, seq.toNat ≤ 2 ^ 62 →
    (m.slots (slotOf bits seq)).version = encodeVersion seq false →
    items[seq.toNat]? = some (m.slots (slotOf bits seq)).value

/-- What a reader relies on between two of its loads. -/
def Advances (items : List (Item W width)) (a b : Memory W width bits) : Prop :=
  Faithful items b ∧ ∀ i, (a.slots i).Later (b.slots i)

variable {items : List (Item W width)} {m n : Memory W width bits}

theorem Faithful.advances (faithful : Faithful items m) : Advances items m m :=
  ⟨faithful, fun i => .refl (m.slots i)⟩

theorem advances_interference :
    Prog.Interference (Advances items : Memory W width bits → Memory W width bits → Prop) where
  trans := fun _ _ _ first second => ⟨second.1, fun i => (first.2 i).trans (second.2 i)⟩
  settled := fun _ _ moved => moved.1.advances

section Reader

variable {i : Fin (2 ^ bits)} {cursor : SpmcReaderCursor} {out : Item W width}
  {maxRetries : UInt32}

/-- The copy agrees with the slot as it was, if the version is still the same. -/
theorem loadWords_ensures (settled : isWriteInProgress (n.slots i).version = false)
    (js : List (Fin width)) (candidate : Item W width) (moved : Advances items n m)
    (copied : (m.slots i).version = (n.slots i).version →
      ∀ j, j ∉ js → candidate j = (n.slots i).value j) :
    (loadWords i js candidate).Ensures (Advances items)
      (fun copy m' => (m'.slots i).version = (n.slots i).version → copy = (n.slots i).value)
      m := by
  induction js generalizing candidate m with
  | nil =>
    intro m' later again
    have between := (moved.2 i).version_between (later.2 i) again
    funext j
    exact copied between j List.not_mem_nil
  | cons j rest ih =>
    intro m' later
    have both := advances_interference.trans _ _ _ moved later
    refine ih _ both ?_
    intro again k outside
    by_cases here : k = j
    · subst here
      rw [Function.update_self]
      exact congrFun ((both.2 i).value_kept again settled) k
    · rw [Function.update_of_ne here]
      have between := (moved.2 i).version_between (later.2 i) again
      exact copied between k (by simp [here, outside])

/-- What a call of `try_read_next` may leave behind. -/
structure ReadPost (items : List (Item W width)) (cursor : SpmcReaderCursor)
    (answer : ReadReturn W width) : Prop where
  forward : cursor.nextSequence.toNat ≤ answer.2.1.nextSequence.toNat
  next_le : answer.2.1.nextSequence.toNat ≤ 2 ^ 62
  observed_le : answer.2.1.observedPublishedSequence.toNat ≤ 2 ^ 62
  item : answer.1.status = .success →
    items[cursor.nextSequence.toNat]? = some answer.2.2 ∧
      cursor.nextSequence.toNat < answer.2.1.nextSequence.toNat

theorem readAttempts_ensures (few : items.length < 2 ^ 62)
    (next : cursor.nextSequence.toNat ≤ 2 ^ 62)
    (observed : cursor.observedPublishedSequence.toNat ≤ 2 ^ 62) (remaining : Nat)
    (retries : UInt64) :
    (readAttempts cursor out remaining retries).Ensures (Advances items)
      (fun answer _ => ReadPost items cursor answer) m := by
  induction remaining generalizing m retries with
  | zero => exact fun _ _ => ⟨Nat.le_refl _, next, observed, fun success => by cases success⟩
  | succ remaining ih =>
    intro before moved
    beta_reduce
    by_cases readable : Readable (Memory.version (slotOf bits cursor.nextSequence) before)
        cursor.nextSequence
    · rw [if_neg (not_not.mpr readable)]
      have version := (readable_iff (by omega)).mp readable
      refine Prog.Ensures.bind advances_interference moved.1.advances
        (loadWords_ensures (n := before) readable.1 _ _ moved.1.advances
          (fun _ j outside => absurd (List.mem_finRange j) outside)) ?_
      intro candidate copied later agrees after settled
      beta_reduce
      split
      · next unchanged =>
        intro _ _
        have again := (later.2 _).version_between (settled.2 _) unchanged.1.symm
        have item := moved.1.values cursor.nextSequence next version
        have inside := (List.getElem?_eq_some_iff.mp item).1
        have one := next_toNat cursor.nextSequence (by omega)
        refine ⟨?_, ?_, observed, fun _ => ⟨?_, ?_⟩⟩
        · simp only [one]
          omega
        · simp only [one]
          omega
        · rw [agrees again]
          exact item
        · simp only [one]
          omega
      · exact ih (retries + 1)
    · rw [if_pos readable]
      exact ih (retries + 1)

theorem readObserved_ensures (cursor : SpmcReaderCursor) (few : items.length < 2 ^ 62)
    (next : cursor.nextSequence.toNat ≤ 2 ^ 62)
    (observed : cursor.observedPublishedSequence.toNat ≤ 2 ^ 62) :
    (readObserved cursor out maxRetries).Ensures (Advances items)
      (fun answer _ => ReadPost items cursor answer) m := by
  simp only [readObserved]
  split
  · next lapped =>
    intro _ _
    have ahead := UInt64.lt_iff_toNat_lt.mp lapped.1
    have behind := UInt64.toNat_sub_of_le _ _ (UInt64.le_of_lt lapped.1)
    have size := Nat.two_pow_pos bits
    have skipped := lap_before_toNat bits
      (show 2 ^ bits ≤ cursor.observedPublishedSequence.toNat by omega)
    refine ⟨?_, ?_, observed, fun success => by cases success⟩
    · simp only [skipped]
      omega
    · simp only [skipped]
      omega
  · exact readAttempts_ensures few next observed maxRetries.toNat 0

/-- A call returns under interference what the ring published under its sequence. -/
theorem tryReadNext_ensures (few : items.length < 2 ^ 62)
    (next : cursor.nextSequence.toNat ≤ 2 ^ 62)
    (observed : cursor.observedPublishedSequence.toNat ≤ 2 ^ 62) :
    (tryReadNext cursor out maxRetries).Ensures (Advances items)
      (fun answer _ => ReadPost items cursor answer) m := by
  simp only [tryReadNext]
  split
  · intro m' moved
    have published := moved.1.published
    beta_reduce
    split
    · exact fun _ _ => ⟨Nat.le_refl _, next, by simp only; omega, fun success => by cases success⟩
    · exact (readObserved_ensures
          { cursor with observedPublishedSequence := m'.publishedSequence } few next
          (by simp only; omega)).weaken
        (fun _ _ post => ⟨post.forward, post.next_le, post.observed_le, post.item⟩)
  · exact readObserved_ensures cursor few next observed

end Reader

end Spmc
end FeedHandler
