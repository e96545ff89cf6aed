import FeedHandler.Lib.SharedProgram
import Mathlib.Data.Nat.Bitwise
import Mathlib.Data.List.FinRange
import Mathlib.Logic.Function.Basic

/-! The single-producer multi-consumer ring of seqlocked slots. An item is an array of words
that is copied word by word; every access to a version, to a word or to the published
sequence is one access of the programs below. -/
namespace FeedHandler

open SharedProgram

inductive SpmcReadStatus where
  | success | empty | overrun | retryLimit
  deriving DecidableEq, Repr

structure SpmcReadResult where
  status : SpmcReadStatus := .empty
  tornReadRetries : UInt64 := 0
  overruns : UInt64 := 0
  deriving DecidableEq, Repr

structure SpmcReaderCursor where
  nextSequence : UInt64 := 0
  observedPublishedSequence : UInt64 := 0
  tornReadRetries : UInt64 := 0
  overruns : UInt64 := 0
  deriving DecidableEq, Repr

namespace Spmc

/-- An item, copied word by word. -/
abbrev Item (W : Type) (width : Nat) : Type := Fin width → W

structure Slot (W : Type) (width : Nat) where
  version : UInt64
  value : Item W width

/-- What the threads share: `2 ^ bits` slots and the published sequence. -/
structure Memory (W : Type) (width bits : Nat) where
  slots : Fin (2 ^ bits) → Slot W width
  publishedSequence : UInt64

def kNeverWrittenSequence : UInt64 := (0xFFFFFFFFFFFFFFFF : UInt64) >>> 1

def encodeVersion (sequence : UInt64) (writeInProgress : Bool) : UInt64 :=
  (sequence <<< 1) ||| (if writeInProgress then 1 else 0)

def sequenceFromVersion (version : UInt64) : UInt64 := version >>> 1

def isWriteInProgress (version : UInt64) : Bool := (version &&& 1) != 0

/-- The slot of a sequence, masked. -/
def slotOf (bits : Nat) (sequence : UInt64) : Fin (2 ^ bits) :=
  ⟨sequence.toNat &&& (2 ^ bits - 1), by
    rw [Nat.and_two_pow_sub_one_eq_mod]
    exact Nat.mod_lt _ (Nat.two_pow_pos bits)⟩

variable {W : Type} {width bits : Nat}

namespace Memory

def create (initial : Item W width) : Memory W width bits where
  slots := fun _ => ⟨encodeVersion kNeverWrittenSequence false, initial⟩
  publishedSequence := 0

def version (i : Fin (2 ^ bits)) (m : Memory W width bits) : UInt64 := (m.slots i).version

def word (i : Fin (2 ^ bits)) (j : Fin width) (m : Memory W width bits) : W := (m.slots i).value j

def setVersion (i : Fin (2 ^ bits)) (version : UInt64) (m : Memory W width bits) :
    Memory W width bits :=
  { m with slots := Function.update m.slots i ⟨version, (m.slots i).value⟩ }

def setWord (i : Fin (2 ^ bits)) (j : Fin width) (w : W) (m : Memory W width bits) :
    Memory W width bits :=
  { m with
    slots := Function.update m.slots i
      ⟨(m.slots i).version, Function.update (m.slots i).value j w⟩ }

def setPublished (sequence : UInt64) (m : Memory W width bits) : Memory W width bits :=
  { m with publishedSequence := sequence }

end Memory

/-- `slot.value = item`, the words in order. -/
def storeWords (i : Fin (2 ^ bits)) (item : Item W width) :
    List (Fin width) → Prog (Memory W width bits) Unit
  | [] => .done ()
  | j :: rest => .store (Memory.setWord i j (item j)) (storeWords i item rest)

/-- `T candidate = slot.value`, the words in order; every word of `candidate` is
overwritten. -/
def loadWords (i : Fin (2 ^ bits)) :
    List (Fin width) → Item W width → Prog (Memory W width bits) (Item W width)
  | [], candidate => .done candidate
  | j :: rest, candidate =>
    .load (Memory.word i j) fun w => loadWords i rest (Function.update candidate j w)

/-- Returns the writer's next sequence. -/
def tryPublish (seq : UInt64) (item : Item W width) : Prog (Memory W width bits) UInt64 :=
  .store (Memory.setVersion (slotOf bits seq) (encodeVersion seq true)) <|
  (storeWords (slotOf bits seq) item (List.finRange width)).bind fun _ =>
  .store (Memory.setVersion (slotOf bits seq) (encodeVersion seq false)) <|
  .store (Memory.setPublished (seq + 1)) <|
  .done (seq + 1)

/-- What a call of `try_read_next` leaves behind: the result, the cursor and `out`. -/
abbrev ReadReturn (W : Type) (width : Nat) : Type :=
  SpmcReadResult × SpmcReaderCursor × Item W width

/-- A version under which the value of sequence `target` can be read. -/
def Readable (version target : UInt64) : Prop :=
  isWriteInProgress version = false ∧ sequenceFromVersion version = target

instance (version target : UInt64) : Decidable (Readable version target) :=
  inferInstanceAs (Decidable (_ ∧ _))

/-- The retry loop with `remaining` attempts left. -/
def readAttempts (cursor : SpmcReaderCursor) (out : Item W width) :
    Nat → UInt64 → Prog (Memory W width bits) (ReadReturn W width)
  | 0, retries =>
    .done ({ status := .retryLimit, tornReadRetries := retries },
      { cursor with tornReadRetries := cursor.tornReadRetries + retries }, out)
  | remaining + 1, retries =>
    .load (Memory.version (slotOf bits cursor.nextSequence)) fun before =>
    if ¬ Readable before cursor.nextSequence then readAttempts cursor out remaining (retries + 1)
    else
      (loadWords (slotOf bits cursor.nextSequence) (List.finRange width) out).bind fun candidate =>
      .load (Memory.version (slotOf bits cursor.nextSequence)) fun after =>
      if before = after ∧ Readable after cursor.nextSequence then
        .done ({ status := .success, tornReadRetries := retries },
          { cursor with
            nextSequence := cursor.nextSequence + 1
            tornReadRetries := cursor.tornReadRetries + retries }, candidate)
      else readAttempts cursor out remaining (retries + 1)

/-- The part behind the refresh of the observed sequence: the lap check on it, then the
attempts. -/
def readObserved (cursor : SpmcReaderCursor) (out : Item W width) (maxRetries : UInt32) :
    Prog (Memory W width bits) (ReadReturn W width) :=
  let behind := cursor.observedPublishedSequence - cursor.nextSequence
  if cursor.observedPublishedSequence > cursor.nextSequence ∧ behind.toNat > 2 ^ bits then
    let overruns := behind - UInt64.ofNat (2 ^ bits)
    .done ({ status := .overrun, overruns := overruns },
      { cursor with
        overruns := cursor.overruns + overruns
        nextSequence := cursor.observedPublishedSequence - UInt64.ofNat (2 ^ bits) }, out)
  else readAttempts cursor out maxRetries.toNat 0

def tryReadNext (cursor : SpmcReaderCursor) (out : Item W width) (maxRetries : UInt32) :
    Prog (Memory W width bits) (ReadReturn W width) :=
  if cursor.nextSequence = cursor.observedPublishedSequence then
    .load Memory.publishedSequence fun published =>
    let cursor := { cursor with observedPublishedSequence := published }
    if cursor.nextSequence = published then .done ({ status := .empty }, cursor, out)
    else readObserved cursor out maxRetries
  else readObserved cursor out maxRetries

/-- A sequence that is not the last 64-bit word has a successor. -/
theorem next_toNat (seq : UInt64) (room : seq.toNat + 1 < 2 ^ 64) :
    (seq + 1).toNat = seq.toNat + 1 := by
  rw [UInt64.toNat_add, show (1 : UInt64).toNat = 1 from rfl]
  omega

/-- The sequence one lap before an observed one. -/
theorem lap_before_toNat (bits : Nat) {observed : UInt64} (lap : 2 ^ bits ≤ observed.toNat) :
    (observed - UInt64.ofNat (2 ^ bits)).toNat = observed.toNat - 2 ^ bits := by
  have word := observed.toNat_lt
  have size : (UInt64.ofNat (2 ^ bits)).toNat = 2 ^ bits := by
    rw [UInt64.toNat_ofNat']
    exact Nat.mod_eq_of_lt (by omega)
  rw [UInt64.toNat_sub_of_le _ _ (by rwa [UInt64.le_iff_toNat_le, size]), size]

section Versions

variable {seq : UInt64} {b : Bool}

theorem encodeVersion_toNat (small : seq.toNat < 2 ^ 63) :
    (encodeVersion seq b).toNat = 2 * seq.toNat + (if b then 1 else 0) := by
  have shifted : (seq <<< 1).toNat = 2 * seq.toNat := by
    have value : (seq <<< 1).toNat = seq.toNat <<< 1 % 2 ^ 64 := by simp [UInt64.toNat_shiftLeft]
    rw [value, Nat.shiftLeft_eq]
    omega
  have flag : ((if b then 1 else 0 : UInt64)).toNat = if b then 1 else 0 := by cases b <;> rfl
  have low : (if b then 1 else 0 : Nat) < 2 ^ 1 := by cases b <;> decide
  have split := Nat.two_pow_add_eq_or_of_lt (i := 1) low seq.toNat
  rw [encodeVersion, UInt64.toNat_or, shifted, flag]
  rw [Nat.pow_one] at split
  exact split.symm

theorem sequenceFromVersion_toNat (version : UInt64) :
    (sequenceFromVersion version).toNat = version.toNat / 2 := by
  have half : (sequenceFromVersion version).toNat = version.toNat >>> 1 := by
    simp [sequenceFromVersion, UInt64.toNat_shiftRight]
  rw [half, Nat.shiftRight_eq_div_pow]

theorem isWriteInProgress_iff (version : UInt64) :
    isWriteInProgress version = true ↔ version.toNat % 2 = 1 := by
  have bit : (version &&& 1).toNat = version.toNat % 2 := by
    rw [UInt64.toNat_and]
    exact Nat.and_one_is_mod _
  rw [isWriteInProgress, bne_iff_ne, ne_eq, ← UInt64.toNat_inj, bit,
    show (0 : UInt64).toNat = 0 from rfl]
  omega

/-- A readable version is the one that the publication of that sequence ends with. -/
theorem readable_iff {version : UInt64} (small : seq.toNat < 2 ^ 63) :
    Readable version seq ↔ version = encodeVersion seq false := by
  have closed := encodeVersion_toNat (b := false) small
  simp only [Bool.false_eq_true, if_false] at closed
  rw [Readable, Bool.eq_false_iff, ne_eq, isWriteInProgress_iff, ← UInt64.toNat_inj,
    ← UInt64.toNat_inj (b := encodeVersion seq false), sequenceFromVersion_toNat, closed]
  omega

end Versions

end Spmc
end FeedHandler
