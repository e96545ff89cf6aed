import FeedHandler.Core.Types
import FeedHandler.Lib.TagRing

/-! Per-venue sequence tracking: which sequence is expected next, and which later
ones inside the gap window have already been seen. All arithmetic is that of
unsigned 64-bit words. -/
namespace FeedHandler

inductive SequenceStatus where
  | inOrder | duplicateOrOld | gapBuffered | gapTooLarge
  deriving DecidableEq, Repr

structure GapRange where
  first : Nat
  last : Nat
  deriving DecidableEq, Repr

structure SequenceUpdate where
  status : SequenceStatus := .inOrder
  inputSequence : Nat := 0
  expectedBefore : Nat := 0
  expectedAfter : Nat := 0
  releasedCount : Nat := 0
  missingRange : Option GapRange := none
  deriving DecidableEq, Repr

structure SequenceTracker where
  nextExpected : Nat
  gapWindow : Nat
  bufferedTags : TagRing

namespace SequenceTracker

def minRingSlots : Nat := 2

/-- Slots of the tag ring. The increment wraps for the largest window. -/
def ringSlots (gapWindow : Nat) : Nat := max minRingSlots ((gapWindow + 1) % wordSize)

theorem ringSlots_pos (gapWindow : Nat) : 0 < ringSlots gapWindow :=
  Nat.lt_of_lt_of_le (by decide : 0 < minRingSlots) (Nat.le_max_left _ _)

def create (gapWindow : Nat) : SequenceTracker where
  nextExpected := 1
  gapWindow := gapWindow
  bufferedTags := .cleared (ringSlots gapWindow) (ringSlots_pos gapWindow)

/-- `++next_expected_` on a 64-bit word. -/
def successor (seq : Nat) : Nat := (seq + 1) % wordSize

def onSequence (t : SequenceTracker) (seq : Nat) : SequenceTracker × SequenceUpdate :=
  let out : SequenceUpdate :=
    { inputSequence := seq, expectedBefore := t.nextExpected, expectedAfter := t.nextExpected }
  if seq = 0 then (t, { out with status := .duplicateOrOld })
  else if seq < t.nextExpected then (t, { out with status := .duplicateOrOld })
  else if seq = t.nextExpected then
    let run := t.bufferedTags.popRun wordSize t.bufferedTags.popFuel (successor t.nextExpected)
    ({ t with nextExpected := run.1, bufferedTags := run.2.2 },
      { out with status := .inOrder, releasedCount := run.2.1 + 1, expectedAfter := run.1 })
  else if seq - t.nextExpected > t.gapWindow then
    (t, { out with status := .gapTooLarge, missingRange := some ⟨t.nextExpected, seq - 1⟩ })
  else
    ({ t with bufferedTags := t.bufferedTags.mark seq },
      { out with status := .gapBuffered, missingRange := some ⟨t.nextExpected, seq - 1⟩ })

def forceAdvance (t : SequenceTracker) (newNext : Nat) : SequenceTracker :=
  if newNext ≤ t.nextExpected then t
  else
    let span := newNext - t.nextExpected
    let tags :=
      if span ≥ t.bufferedTags.size then .cleared t.bufferedTags.size t.bufferedTags.size_pos
      else (List.range' t.nextExpected span).foldl TagRing.discard t.bufferedTags
    { t with nextExpected := newNext, bufferedTags := tags }

variable {t : SequenceTracker} {seq : Nat}

/-- The sequences received ahead of the expected one and not yet released. -/
def Buffered (t : SequenceTracker) (seq : Nat) : Prop := t.bufferedTags.Holds seq

instance (t : SequenceTracker) (seq : Nat) : Decidable (t.Buffered seq) :=
  inferInstanceAs (Decidable (t.bufferedTags.Holds seq))

/-- The tags popped by an in-order arrival. -/
def released (t : SequenceTracker) : Nat × Nat × TagRing :=
  t.bufferedTags.popRun wordSize t.bufferedTags.popFuel (successor t.nextExpected)

/-- The tracker state after an in-order arrival. -/
def advanced (t : SequenceTracker) : SequenceTracker :=
  { t with nextExpected := t.released.1, bufferedTags := t.released.2.2 }

/-- The tracker state after buffering a sequence. -/
def marked (t : SequenceTracker) (seq : Nat) : SequenceTracker :=
  { t with bufferedTags := t.bufferedTags.mark seq }

theorem onSequence_old (old : seq = 0 ∨ seq < t.nextExpected) :
    t.onSequence seq = (t,
      { status := .duplicateOrOld, inputSequence := seq,
        expectedBefore := t.nextExpected, expectedAfter := t.nextExpected }) := by
  simp only [onSequence]
  by_cases zero : seq = 0
  · simp [zero]
  · simp [zero, old.resolve_left zero]

theorem onSequence_tooLarge (far : t.nextExpected + t.gapWindow < seq) :
    t.onSequence seq = (t,
      { status := .gapTooLarge, inputSequence := seq,
        expectedBefore := t.nextExpected, expectedAfter := t.nextExpected,
        missingRange := some ⟨t.nextExpected, seq - 1⟩ }) := by
  simp only [onSequence]
  have nonzero : seq ≠ 0 := by omega
  have notOld : ¬ seq < t.nextExpected := by omega
  have notNext : seq ≠ t.nextExpected := by omega
  have ahead : seq - t.nextExpected > t.gapWindow := by omega
  simp only [nonzero, notOld, notNext, ahead, if_false, if_true]

theorem onSequence_buffered (ahead : t.nextExpected < seq)
    (near : seq ≤ t.nextExpected + t.gapWindow) :
    t.onSequence seq = (t.marked seq,
      { status := .gapBuffered, inputSequence := seq,
        expectedBefore := t.nextExpected, expectedAfter := t.nextExpected,
        missingRange := some ⟨t.nextExpected, seq - 1⟩ }) := by
  simp only [onSequence]
  have nonzero : seq ≠ 0 := by omega
  have notOld : ¬ seq < t.nextExpected := by omega
  have notNext : seq ≠ t.nextExpected := by omega
  have within : ¬ seq - t.nextExpected > t.gapWindow := by omega
  simp only [nonzero, notOld, notNext, within, if_false, marked]

theorem onSequence_inOrder (positive : 0 < t.nextExpected) :
    t.onSequence t.nextExpected =
      (t.advanced,
        { status := .inOrder, inputSequence := t.nextExpected,
          expectedBefore := t.nextExpected, expectedAfter := t.released.1,
          releasedCount := t.released.2.1 + 1 }) := by
  simp only [onSequence, advanced, released]
  have nonzero : t.nextExpected ≠ 0 := by omega
  simp only [nonzero, if_false, lt_irrefl, if_true]

/-- The four positions a sequence can have, in the order the tracker tests them. -/
theorem position (t : SequenceTracker) (seq : Nat) :
    (seq = 0 ∨ seq < t.nextExpected) ∨ (seq = t.nextExpected ∧ 0 < seq) ∨
      t.nextExpected + t.gapWindow < seq ∨
      (t.nextExpected < seq ∧ seq ≤ t.nextExpected + t.gapWindow) := by
  omega

/-- The answer depends on the position of the sequence relative to the window only. -/
theorem status_eq (t : SequenceTracker) (seq : Nat) :
    (t.onSequence seq).2.status =
      if seq = 0 ∨ seq < t.nextExpected then .duplicateOrOld
      else if seq = t.nextExpected then .inOrder
      else if t.nextExpected + t.gapWindow < seq then .gapTooLarge
      else .gapBuffered := by
  split
  · next old => rw [onSequence_old old]
  · next notOld =>
    simp only [not_or] at notOld
    split
    · next same =>
      subst same
      rw [onSequence_inOrder (by omega)]
    · split
      · next far => rw [onSequence_tooLarge far]
      · next near => rw [onSequence_buffered (by omega) (by omega)]

theorem tooLarge_iff (t : SequenceTracker) (seq : Nat) :
    (t.onSequence seq).2.status = .gapTooLarge ↔ t.nextExpected + t.gapWindow < seq := by
  rw [status_eq]
  grind

/-- A tracker that has not passed the last sequence: the buffered sequences are
ahead of the expected one and none of them is the last 64-bit value. -/
structure Unwrapped (t : SequenceTracker) : Prop where
  positive : 0 < t.nextExpected
  bounded : t.nextExpected < wordSize
  ahead : ∀ x, t.Buffered x → t.nextExpected < x ∧ x + 1 < wordSize

/-- Window invariant: every buffered sequence lies in the gap window, and the ring
is wide enough to keep two sequences of one window apart. -/
structure Windowed (t : SequenceTracker) : Prop extends t.Unwrapped where
  narrow : t.gapWindow < t.bufferedTags.size
  within : ∀ x, t.Buffered x → x ≤ t.nextExpected + t.gapWindow

theorem create_unwrapped (gapWindow : Nat) : (create gapWindow).Unwrapped where
  positive := Nat.one_pos
  bounded := (by decide : 1 < wordSize)
  ahead := fun _ held => absurd held TagRing.holds_cleared

theorem create_windowed {gapWindow : Nat} (small : gapWindow + 1 < wordSize) :
    (create gapWindow).Windowed where
  toUnwrapped := create_unwrapped gapWindow
  narrow := by
    have size : (create gapWindow).bufferedTags.size = ringSlots gapWindow := rfl
    rw [size, ringSlots, Nat.mod_eq_of_lt small]
    exact Nat.lt_of_lt_of_le (Nat.lt_succ_self _) (Nat.le_max_right _ _)
  within := fun _ held => absurd held TagRing.holds_cleared

theorem successor_eq (room : seq + 1 < wordSize) : successor seq = seq + 1 :=
  Nat.mod_eq_of_lt room

/-- Where the next sequence is not buffered, an in-order arrival releases nothing. -/
theorem released_quiet (room : t.nextExpected + 1 < wordSize)
    (absent : ¬ t.Buffered (t.nextExpected + 1)) :
    t.released = (t.nextExpected + 1, 0, t.bufferedTags) := by
  simp only [released]
  rw [successor_eq room]
  exact TagRing.popRun_stuck (TagRing.pop_none absent (by omega))

/-- One in-order arrival releases exactly the buffered sequences that follow it
without a gap, and stops at the first one that is missing. -/
theorem Unwrapped.released_spec (ok : t.Unwrapped) (room : t.nextExpected + 1 < wordSize) :
    t.released.1 = t.nextExpected + 1 + t.released.2.1 ∧
    (∀ k, t.nextExpected < k → k < t.released.1 → t.Buffered k) ∧
    (∀ k, t.released.2.2.Holds k ↔ t.Buffered k ∧ t.released.1 ≤ k) ∧
    t.released.2.2.size = t.bufferedTags.size ∧ ¬ t.Buffered t.released.1 := by
  have top : ∀ x, t.bufferedTags.Holds x → x + 1 < wordSize := fun x held => (ok.ahead x held).2
  simp only [released]
  rw [successor_eq room]
  obtain ⟨count, between, remaining, size⟩ := TagRing.popRun_spec
    t.bufferedTags.popFuel (t.nextExpected + 1) t.bufferedTags (by omega) top
  have stops := TagRing.popRun_stops (by decide : 1 < wordSize)
    (n := t.nextExpected + 1) (by omega) top
  refine ⟨count, fun k low => between k low, ?_, size, stops⟩
  intro k
  rw [remaining k]
  constructor
  · rintro ⟨held, outside⟩
    have := (ok.ahead k held).1
    exact ⟨held, by omega⟩
  · rintro ⟨held, bound⟩
    exact ⟨held, by omega⟩

/-- The first missing sequence after an in-order arrival is still a 64-bit word. -/
theorem Unwrapped.released_bounded (ok : t.Unwrapped) (room : t.nextExpected + 1 < wordSize) :
    t.nextExpected < t.released.1 ∧ t.released.1 < wordSize := by
  obtain ⟨count, between, _, _, _⟩ := ok.released_spec room
  refine ⟨by omega, ?_⟩
  by_cases more : t.released.2.1 = 0
  · omega
  · have last := between (t.released.1 - 1) (by omega) (by omega)
    have := (ok.ahead _ last).2
    omega

theorem Unwrapped.advanced (ok : t.Unwrapped) (room : t.nextExpected + 1 < wordSize) :
    t.advanced.Unwrapped := by
  obtain ⟨_, _, remaining, _, stops⟩ := ok.released_spec room
  obtain ⟨advance, bounded⟩ := ok.released_bounded room
  refine ⟨Nat.lt_trans ok.positive advance, bounded, ?_⟩
  intro x held
  obtain ⟨before, bound⟩ := (remaining x).mp held
  have distinct : x ≠ t.released.1 := fun same => stops (same ▸ before)
  exact ⟨lt_of_le_of_ne bound (Ne.symm distinct), (ok.ahead x before).2⟩

theorem Windowed.advanced (ok : t.Windowed) (room : t.nextExpected + 1 < wordSize) :
    t.advanced.Windowed := by
  obtain ⟨_, _, remaining, size, _⟩ := ok.released_spec room
  obtain ⟨advance, _⟩ := ok.released_bounded room
  refine ⟨ok.toUnwrapped.advanced room, size ▸ ok.narrow, ?_⟩
  intro x held
  have high := ok.within x ((remaining x).mp held).1
  change x ≤ t.released.1 + t.gapWindow
  omega

theorem Unwrapped.marked (ok : t.Unwrapped) (ahead : t.nextExpected < seq)
    (room : seq + 1 < wordSize) : (t.marked seq).Unwrapped := by
  refine ⟨ok.positive, ok.bounded, ?_⟩
  intro x held
  rcases (TagRing.holds_mark (by omega)).mp held with rfl | ⟨_, before⟩
  · exact ⟨ahead, room⟩
  · exact ok.ahead x before

/-- Inside the window, buffering a sequence forgets no other one. -/
theorem Windowed.buffered_marked (ok : t.Windowed) (ahead : t.nextExpected < seq)
    (near : seq ≤ t.nextExpected + t.gapWindow) (k : Nat) :
    (t.marked seq).Buffered k ↔ k = seq ∨ t.Buffered k :=
  TagRing.holds_mark_near ok.narrow ahead near
    fun held => ⟨(ok.ahead k held).1, ok.within k held⟩

theorem Windowed.marked (ok : t.Windowed) (ahead : t.nextExpected < seq)
    (near : seq ≤ t.nextExpected + t.gapWindow) (room : seq + 1 < wordSize) :
    (t.marked seq).Windowed := by
  refine ⟨ok.toUnwrapped.marked ahead room, ok.narrow, ?_⟩
  intro x held
  rcases (ok.buffered_marked ahead near x).mp held with rfl | before
  · exact near
  · exact ok.within x before

theorem Unwrapped.onSequence_next (ok : t.Unwrapped) (room : seq + 1 < wordSize) :
    t.nextExpected ≤ (t.onSequence seq).1.nextExpected ∧
      (seq = t.nextExpected → t.nextExpected < (t.onSequence seq).1.nextExpected) := by
  have positive := ok.positive
  rcases t.position seq with old | ⟨rfl, _⟩ | far | ⟨ahead, near⟩
  · rw [onSequence_old old]
    exact ⟨Nat.le_refl _, fun same => by omega⟩
  · have advance := (ok.released_bounded room).1
    rw [onSequence_inOrder positive]
    exact ⟨advance.le, fun _ => advance⟩
  · rw [onSequence_tooLarge far]
    exact ⟨Nat.le_refl _, fun same => by omega⟩
  · rw [onSequence_buffered ahead near]
    exact ⟨Nat.le_refl _, fun same => by omega⟩

theorem onSequence_width (t : SequenceTracker) (seq : Nat) :
    (t.onSequence seq).1.gapWindow = t.gapWindow := by
  simp only [onSequence]
  grind

theorem Windowed.onSequence (ok : t.Windowed) (near : seq ≤ t.nextExpected + t.gapWindow)
    (room : seq + 1 < wordSize) : (t.onSequence seq).1.Windowed := by
  rcases t.position seq with old | ⟨rfl, _⟩ | far | ⟨ahead, _⟩
  · rw [onSequence_old old]
    exact ok
  · rw [onSequence_inOrder ok.positive]
    exact ok.advanced room
  · omega
  · rw [onSequence_buffered ahead near]
    exact ok.marked ahead near room

/-- The sequences the tracker has taken, released or still buffered. -/
def Seen (t : SequenceTracker) (k : Nat) : Prop := k < t.nextExpected ∨ t.Buffered k

theorem Unwrapped.next_not_seen (ok : t.Unwrapped) : ¬ t.Seen t.nextExpected := by
  rintro (behind | held)
  · omega
  · have := (ok.ahead _ held).1
    omega

/-- Inside the window, taking a sequence adds exactly that one to the seen ones. -/
theorem Windowed.seen_onSequence (ok : t.Windowed) (near : seq ≤ t.nextExpected + t.gapWindow)
    (room : seq + 1 < wordSize) (k : Nat) :
    (t.onSequence seq).1.Seen k ↔ k = seq ∨ t.Seen k := by
  have positive := ok.positive
  rcases t.position seq with old | ⟨rfl, _⟩ | far | ⟨ahead, _⟩
  · have behind : seq < t.nextExpected := by omega
    rw [onSequence_old old]
    refine ⟨Or.inr, ?_⟩
    rintro (rfl | seen)
    · exact Or.inl behind
    · exact seen
  · obtain ⟨_, between, held, _, _⟩ := ok.released_spec room
    have advance := (ok.released_bounded room).1
    rw [onSequence_inOrder positive]
    change k < t.released.1 ∨ t.released.2.2.Holds k ↔ _
    rw [held k]
    constructor
    · rintro (behind | ⟨buffered, _⟩)
      · rcases Nat.lt_trichotomy k t.nextExpected with low | here | high
        · exact Or.inr (Or.inl low)
        · exact Or.inl here
        · exact Or.inr (Or.inr (between k high behind))
      · exact Or.inr (Or.inr buffered)
    · rintro (rfl | low | buffered)
      · exact Or.inl advance
      · exact Or.inl (by omega)
      · by_cases behind : k < t.released.1
        · exact Or.inl behind
        · exact Or.inr ⟨buffered, by omega⟩
  · omega
  · rw [onSequence_buffered ahead near]
    have marks := ok.buffered_marked ahead near k
    constructor
    · rintro (behind | held)
      · exact Or.inr (Or.inl behind)
      · exact (marks.mp held).imp id Or.inr
    · rintro (rfl | behind | held)
      · exact Or.inr (marks.mpr (Or.inl rfl))
      · exact Or.inl behind
      · exact Or.inr (marks.mpr (Or.inr held))

theorem forceAdvance_next (moves : t.nextExpected < seq) :
    (t.forceAdvance seq).nextExpected = seq := by
  simp only [SequenceTracker.forceAdvance, Nat.not_le.mpr moves, if_false]

/-- A forced advance past the window empties the ring, by either branch. -/
theorem Windowed.forceAdvance_spec (ok : t.Windowed)
    (far : t.nextExpected + t.gapWindow < seq) :
    (t.forceAdvance seq).nextExpected = seq ∧
    (t.forceAdvance seq).gapWindow = t.gapWindow ∧
    (t.forceAdvance seq).bufferedTags.size = t.bufferedTags.size ∧
    ∀ k, ¬ (t.forceAdvance seq).Buffered k := by
  have moves : ¬ seq ≤ t.nextExpected := by omega
  simp only [SequenceTracker.forceAdvance, moves, if_false, true_and, Buffered]
  split
  · exact ⟨rfl, fun k => TagRing.holds_cleared⟩
  · refine ⟨TagRing.size_foldl_discard _ _, ?_⟩
    intro k held
    obtain ⟨before, outside⟩ := (TagRing.holds_foldl_discard _ _).mp held
    have low := (ok.ahead k before).1
    have high := ok.within k before
    apply outside
    rw [List.mem_range'_1]
    omega

theorem Windowed.forceAdvance (ok : t.Windowed) (far : t.nextExpected + t.gapWindow < seq)
    (word : seq < wordSize) : (t.forceAdvance seq).Windowed := by
  obtain ⟨next, width, size, empty⟩ := ok.forceAdvance_spec far
  refine ⟨⟨by omega, by omega, fun x held => absurd held (empty x)⟩, ?_,
    fun x held => absurd held (empty x)⟩
  rw [width, size]
  exact ok.narrow

end SequenceTracker
end FeedHandler
