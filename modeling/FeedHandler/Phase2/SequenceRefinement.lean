import FeedHandler.Phase2.SequenceTracker
import FeedHandler.Lib.ReorderWindow
import FeedHandler.Lib.Run

/-! The tag ring of a tracker implements a reorder window. A forced advance may
leave the tag of its own target in the ring, so tags at or below the expected
sequence are tolerated: nothing ever reads them again, and a new tag may take
their cell. -/
namespace FeedHandler

/-- The two calls that change a tracker. -/
inductive SequenceCall where
  | onSequence (seq : Nat)
  | forceAdvance (newNext : Nat)
  deriving DecidableEq, Repr

namespace SequenceCall

def argument : SequenceCall → Nat
  | .onSequence seq => seq
  | .forceAdvance newNext => newNext

end SequenceCall

namespace SequenceTracker

variable {t : SequenceTracker} {w : ReorderWindow} {seq : Nat}

def apply (t : SequenceTracker) : SequenceCall → SequenceTracker
  | .onSequence seq => (t.onSequence seq).1
  | .forceAdvance newNext => t.forceAdvance newNext

def answer (t : SequenceTracker) : SequenceCall → Option SequenceUpdate
  | .onSequence seq => some (t.onSequence seq).2
  | .forceAdvance _ => none

/-- What every history leaves behind: no tag past the window, and a ring wide enough
to keep two sequences of one window apart. -/
structure Ringed (t : SequenceTracker) : Prop where
  positive : 0 < t.nextExpected
  bounded : t.nextExpected < wordSize
  narrow : t.gapWindow < t.bufferedTags.size
  top : ∀ x, t.Buffered x → x + 1 < wordSize
  within : ∀ x, t.Buffered x → x ≤ t.nextExpected + t.gapWindow

/-- The window a tracker stands for: the tags above the expected sequence. -/
structure Implements (t : SequenceTracker) (w : ReorderWindow) : Prop extends t.Ringed where
  width : w.width = t.gapWindow
  next : w.next = t.nextExpected
  received : ∀ x, x ∈ w.received ↔ t.Buffered x ∧ t.nextExpected < x

end SequenceTracker

/-- An answer of the window in the tracker's own words. -/
def SequenceUpdate.ofWindow (w : ReorderWindow) (seq : Nat) : ReorderWindow.Answer → SequenceUpdate
  | .old =>
    { status := .duplicateOrOld, inputSequence := seq,
      expectedBefore := w.next, expectedAfter := w.next }
  | .released count runEnd =>
    { status := .inOrder, inputSequence := seq,
      expectedBefore := w.next, expectedAfter := runEnd, releasedCount := count }
  | .buffered first last =>
    { status := .gapBuffered, inputSequence := seq,
      expectedBefore := w.next, expectedAfter := w.next, missingRange := some ⟨first, last⟩ }
  | .tooFar first last =>
    { status := .gapTooLarge, inputSequence := seq,
      expectedBefore := w.next, expectedAfter := w.next, missingRange := some ⟨first, last⟩ }

namespace SequenceCall

/-- The same call made of the abstract window. -/
noncomputable def onWindow (w : ReorderWindow) : SequenceCall → ReorderWindow
  | .onSequence seq => (w.accept seq).1
  | .forceAdvance newNext => w.advanceTo newNext

noncomputable def windowAnswer (w : ReorderWindow) : SequenceCall → Option SequenceUpdate
  | .onSequence seq => some (.ofWindow w seq (w.accept seq).2)
  | .forceAdvance _ => none

end SequenceCall

namespace SequenceTracker

variable {t : SequenceTracker} {w : ReorderWindow} {seq : Nat}

theorem create_implements {gapWindow : Nat} (small : gapWindow + 1 < wordSize) :
    (create gapWindow).Implements (.initial gapWindow 1) where
  positive := Nat.one_pos
  bounded := (by decide : 1 < wordSize)
  narrow := (create_windowed small).narrow
  top := fun _ held => absurd held TagRing.holds_cleared
  within := fun _ held => absurd held TagRing.holds_cleared
  width := rfl
  next := rfl
  received := fun _ => ⟨fun none => none.elim, fun held => absurd held.1 TagRing.holds_cleared⟩

/-- The pops of an in-order arrival take the run that follows it and nothing else. -/
theorem Ringed.released_spec (ok : t.Ringed) (room : t.nextExpected + 1 < wordSize) :
    t.released.1 = t.nextExpected + 1 + t.released.2.1 ∧
    (∀ k, t.nextExpected < k → k < t.released.1 → t.Buffered k) ∧
    (∀ k, t.released.2.2.Holds k ↔
      t.Buffered k ∧ ¬ (t.nextExpected + 1 ≤ k ∧ k < t.released.1)) ∧
    t.released.2.2.size = t.bufferedTags.size ∧ ¬ t.Buffered t.released.1 := by
  simp only [released]
  rw [successor_eq room]
  obtain ⟨count, between, remaining, size⟩ := TagRing.popRun_spec
    t.bufferedTags.popFuel (t.nextExpected + 1) t.bufferedTags (by omega) ok.top
  have stops := TagRing.popRun_stops (by decide : 1 < wordSize)
    (n := t.nextExpected + 1) (by omega) ok.top
  exact ⟨count, fun k low => between k low, remaining, size, stops⟩

theorem Implements.runEnd (ok : t.Implements w) (room : t.nextExpected + 1 < wordSize) :
    w.runEnd = t.released.1 := by
  obtain ⟨count, between, _, _, stops⟩ := ok.toRinged.released_spec room
  apply ReorderWindow.runEnd_iff.mpr
  rw [ok.next]
  refine ⟨by omega, ?_, ?_⟩
  · intro member
    exact stops ((ok.received _).mp member).1
  · intro k low high
    exact (ok.received k).mpr ⟨between k low high, low⟩

/-- The first missing sequence is still a 64-bit word. -/
theorem Ringed.released_bounded (ok : t.Ringed) (room : t.nextExpected + 1 < wordSize) :
    t.released.1 < wordSize := by
  obtain ⟨count, between, _, _, _⟩ := ok.released_spec room
  by_cases more : t.released.2.1 = 0
  · omega
  · have last := ok.top _ (between (t.released.1 - 1) (by omega) (by omega))
    omega

theorem Implements.advanced (ok : t.Implements w) (room : t.nextExpected + 1 < wordSize) :
    t.advanced.Implements (w.advanceTo w.runEnd) := by
  obtain ⟨count, _, remaining, size, _⟩ := ok.toRinged.released_spec room
  have bounded := ok.toRinged.released_bounded room
  have runEnd := ok.runEnd room
  have next : max w.next w.runEnd = t.released.1 := by
    rw [runEnd, ok.next]
    omega
  refine ⟨⟨?_, bounded, size ▸ ok.narrow, ?_, ?_⟩, ok.width, next, ?_⟩
  · change 0 < t.released.1
    omega
  · intro x held
    exact ok.top x ((remaining x).mp held).1
  · intro x held
    have high := ok.within x ((remaining x).mp held).1
    change x ≤ t.released.1 + t.gapWindow
    omega
  · intro x
    change x ∈ w.received ∧ max w.next w.runEnd < x ↔ t.released.2.2.Holds x ∧ t.released.1 < x
    rw [next, ok.received x, remaining x]
    constructor
    · rintro ⟨⟨held, _⟩, above⟩
      exact ⟨⟨held, by omega⟩, above⟩
    · rintro ⟨⟨held, _⟩, above⟩
      exact ⟨⟨held, by omega⟩, above⟩

/-- A new tag evicts no tag above the expected sequence: two of those that share a
cell are the same. -/
theorem Ringed.buffered_marked (ok : t.Ringed) (ahead : t.nextExpected < seq)
    (near : seq ≤ t.nextExpected + t.gapWindow) {k : Nat} (above : t.nextExpected < k) :
    (t.marked seq).Buffered k ↔ k = seq ∨ t.Buffered k :=
  TagRing.holds_mark_near ok.narrow ahead near fun held => ⟨above, ok.within k held⟩

theorem Implements.marked (ok : t.Implements w) (ahead : t.nextExpected < seq)
    (near : seq ≤ t.nextExpected + t.gapWindow) (room : seq + 1 < wordSize)
    (above : w.next < seq) (inside : seq ≤ w.next + w.width) :
    (t.marked seq).Implements (w.buffer seq above inside) := by
  have kept : ∀ x, (t.marked seq).Buffered x → x = seq ∨ t.Buffered x := by
    intro x held
    exact ((TagRing.holds_mark (by omega)).mp held).imp id And.right
  refine ⟨⟨ok.positive, ok.bounded, ok.narrow, ?_, ?_⟩, ok.width, ok.next, ?_⟩
  · intro x held
    rcases kept x held with rfl | before
    · exact room
    · exact ok.top x before
  · intro x held
    rcases kept x held with rfl | before
    · exact near
    · exact ok.within x before
  · intro x
    change x = seq ∨ x ∈ w.received ↔ (t.marked seq).Buffered x ∧ t.nextExpected < x
    rw [ok.received x]
    constructor
    · rintro (rfl | ⟨held, higher⟩)
      · exact ⟨(ok.toRinged.buffered_marked ahead near ahead).mpr (Or.inl rfl), ahead⟩
      · exact ⟨(ok.toRinged.buffered_marked ahead near higher).mpr (Or.inr held), higher⟩
    · rintro ⟨held, higher⟩
      exact ((ok.toRinged.buffered_marked ahead near higher).mp held).imp id
        (fun before => ⟨before, higher⟩)

/-- Either way of clearing keeps exactly the tags outside the sequences skipped, except
that filling the ring with zeros also drops tags no later than those. -/
theorem Ringed.buffered_forceAdvance (ok : t.Ringed) (moves : t.nextExpected < seq) (x : Nat) :
    ((t.forceAdvance seq).Buffered x → t.Buffered x) ∧
    (seq < x → t.Buffered x → (t.forceAdvance seq).Buffered x) ∧
    (t.forceAdvance seq).bufferedTags.size = t.bufferedTags.size := by
  have moving : ¬ seq ≤ t.nextExpected := by omega
  simp only [SequenceTracker.forceAdvance, moving, if_false, Buffered]
  split
  · next wide =>
    refine ⟨fun held => absurd held TagRing.holds_cleared, ?_, rfl⟩
    intro above held
    -- a skip as wide as the ring passes the whole window
    have high := ok.within x held
    have narrow := ok.narrow
    omega
  · refine ⟨?_, ?_, TagRing.size_foldl_discard _ _⟩
    · intro held
      exact ((TagRing.holds_foldl_discard _ _).mp held).1
    · intro above held
      refine (TagRing.holds_foldl_discard _ _).mpr ⟨held, ?_⟩
      rw [List.mem_range'_1]
      omega

theorem Implements.forceAdvance (ok : t.Implements w) (word : seq < wordSize) :
    (t.forceAdvance seq).Implements (w.advanceTo seq) := by
  by_cases moves : t.nextExpected < seq
  · have next : (t.forceAdvance seq).nextExpected = seq := forceAdvance_next moves
    have width : (t.forceAdvance seq).gapWindow = t.gapWindow := by
      simp only [SequenceTracker.forceAdvance, Nat.not_le.mpr moves, if_false]
    have kept := ok.toRinged.buffered_forceAdvance moves
    have higher : max w.next seq = seq := by
      rw [ok.next]
      omega
    refine ⟨⟨by omega, by omega, ?_, ?_, ?_⟩, ok.width.trans width.symm,
      higher.trans next.symm, ?_⟩
    · rw [width, (kept 0).2.2]
      exact ok.narrow
    · intro x held
      exact ok.top x ((kept x).1 held)
    · intro x held
      have high := ok.within x ((kept x).1 held)
      omega
    · intro x
      change x ∈ w.received ∧ max w.next seq < x ↔ _
      rw [higher, next, ok.received x]
      constructor
      · rintro ⟨⟨held, _⟩, above⟩
        exact ⟨(kept x).2.1 above held, above⟩
      · rintro ⟨held, above⟩
        exact ⟨⟨(kept x).1 held, by omega⟩, above⟩
  · have still : seq ≤ t.nextExpected := by omega
    have same : max w.next seq = t.nextExpected := by
      rw [ok.next]
      omega
    rw [show t.forceAdvance seq = t from if_pos still]
    refine ⟨ok.toRinged, ok.width, same, ?_⟩
    intro x
    change x ∈ w.received ∧ max w.next seq < x ↔ _
    rw [same, ok.received x]
    exact ⟨fun h => h.1, fun h => ⟨h, h.2⟩⟩

/-- One arrival: the same answer, and states that still correspond. -/
theorem Implements.onSequence (ok : t.Implements w) (room : seq + 1 < wordSize) :
    (t.onSequence seq).1.Implements (w.accept seq).1 ∧
      (t.onSequence seq).2 = .ofWindow w seq (w.accept seq).2 := by
  rcases t.position seq with old | ⟨rfl, _⟩ | far | ⟨ahead, near⟩
  · rw [onSequence_old old, ReorderWindow.accept_old (by rwa [ok.next])]
    exact ⟨ok, by simp only [SequenceUpdate.ofWindow, ok.next]⟩
  · have positive := ok.positive
    have count := (ok.toRinged.released_spec room).1
    have arrival : w.accept t.nextExpected =
        (w.advanceTo w.runEnd, .released (w.runEnd - w.next) w.runEnd) := by
      rw [← ok.next]
      exact ReorderWindow.accept_next (by rw [ok.next]; exact positive)
    have length : t.released.1 - t.nextExpected = t.released.2.1 + 1 := by omega
    rw [onSequence_inOrder positive, arrival]
    exact ⟨ok.advanced room,
      by simp only [SequenceUpdate.ofWindow, ok.runEnd room, ok.next, length]⟩
  · rw [onSequence_tooLarge far, ReorderWindow.accept_far (by rwa [ok.next, ok.width])]
    exact ⟨ok, by simp only [SequenceUpdate.ofWindow, ok.next]⟩
  · have above : w.next < seq := by rwa [ok.next]
    have inside : seq ≤ w.next + w.width := by rwa [ok.next, ok.width]
    rw [onSequence_buffered ahead near, ReorderWindow.accept_near above inside]
    exact ⟨ok.marked ahead near room above inside, by simp only [SequenceUpdate.ofWindow, ok.next]⟩

theorem Implements.apply (ok : t.Implements w) {call : SequenceCall}
    (room : call.argument + 1 < wordSize) :
    (t.apply call).Implements (call.onWindow w) ∧ t.answer call = call.windowAnswer w := by
  cases call with
  | onSequence seq =>
    obtain ⟨related, same⟩ := ok.onSequence room
    exact ⟨related, congrArg some same⟩
  | forceAdvance newNext => exact ⟨ok.forceAdvance (Nat.lt_of_succ_lt room), rfl⟩

/-- Over every history the tracker is the window it stands for: the same expected
sequence, the same received set, and the same answer to whatever is called next. -/
theorem history_implements_window (gapWindow : Nat) (small : gapWindow + 1 < wordSize)
    (calls : List SequenceCall) (room : ∀ call ∈ calls, call.argument + 1 < wordSize) :
    let t := calls.foldl apply (create gapWindow)
    let w := calls.foldl SequenceCall.onWindow (.initial gapWindow 1)
    t.nextExpected = w.next ∧ (∀ x, x ∈ w.received ↔ t.Buffered x ∧ t.nextExpected < x) ∧
      ∀ call : SequenceCall, call.argument + 1 < wordSize →
        t.answer call = call.windowAnswer w := by
  intro t w
  have along : Run.Along apply (fun _ call => call.argument + 1 < wordSize)
      (create gapWindow) calls := Run.along_of_forall _ calls room
  have related : t.Implements w := along.simulation
    (fun _ _ _ ok admissible => (ok.apply admissible).1) (create_implements small)
  exact ⟨related.next.symm, related.received, fun _ admissible => (related.apply admissible).2⟩

/-- A forced advance to a buffered sequence leaves its tag behind, and the window forgets it. -/
theorem history_implements_window_stale :
    let calls : List SequenceCall := [.onSequence 3, .forceAdvance 3]
    let t := calls.foldl apply (create 4)
    let w := calls.foldl SequenceCall.onWindow (.initial 4 1)
    t.nextExpected = w.next ∧ (∀ x, x ∈ w.received ↔ t.Buffered x ∧ t.nextExpected < x) ∧
      ∀ call : SequenceCall, call.argument + 1 < wordSize → t.answer call = call.windowAnswer w :=
  history_implements_window 4 (by decide) [.onSequence 3, .forceAdvance 3] (by decide)

end SequenceTracker
end FeedHandler
