import FeedHandler.Core.SpmcSeqlockRing
import FeedHandler.Lib.Run

/-! One reader of the ring, its calls taken one at a time between completed publications.
The reader looks at the published sequence again only when it has consumed everything it
saw, so the lap check can run on a number that the ring has left behind. -/
namespace FeedHandler
namespace Spmc

open SharedProgram

variable {W : Type} {width bits : Nat}

section Calls

variable {i : Fin (2 ^ bits)} {item out candidate : Item W width} {m : Memory W width bits}
  {cursor : SpmcReaderCursor} {seq : UInt64} {js : List (Fin width)}

theorem exec_storeWords : (storeWords i item js).exec m = ((),
    { m with
      slots := Function.update m.slots i
        ⟨(m.slots i).version, fun j => if j ∈ js then item j else (m.slots i).value j⟩ }) := by
  induction js generalizing m with
  | nil =>
    have same : (⟨(m.slots i).version, (m.slots i).value⟩ : Slot W width) = m.slots i := rfl
    simp only [storeWords, Prog.exec_done, List.not_mem_nil, if_false, same, Function.update_eq_self]
  | cons j rest ih =>
    have words : (fun k => if k ∈ rest then item k
        else Function.update (m.slots i).value j (item j) k) =
        fun k => if k ∈ j :: rest then item k else (m.slots i).value k := by
      funext k
      by_cases here : k = j
      · subst here
        simp
      · simp [here]
    simp only [storeWords, Prog.exec_store, ih, Memory.setWord, Function.update_self,
      Function.update_idem, words]

theorem exec_loadWords : (loadWords i js candidate).exec m =
    ((fun j => if j ∈ js then (m.slots i).value j else candidate j), m) := by
  induction js generalizing candidate with
  | nil => simp [loadWords]
  | cons j rest ih =>
    simp only [loadWords, Prog.exec_load, ih, Prod.mk.injEq, and_true]
    funext k
    by_cases here : k = j
    · subst here
      simp [Memory.word]
    · simp [here]

/-- A publication leaves its item in the slot, under its own version. -/
theorem exec_tryPublish : (tryPublish seq item).exec m = (seq + 1,
    { slots := Function.update m.slots (slotOf bits seq) ⟨encodeVersion seq false, item⟩
      publishedSequence := seq + 1 }) := by
  simp only [tryPublish, Prog.exec_store, Prog.exec_bind, exec_storeWords, Prog.exec_done,
    Memory.setVersion, Memory.setPublished, Function.update_self, Function.update_idem,
    List.mem_finRange, if_true]

/-- A slot that holds the sequence is read at the first attempt. -/
theorem exec_readAttempts_held (remaining : Nat) (retries : UInt64)
    (held : Readable (m.slots (slotOf bits cursor.nextSequence)).version cursor.nextSequence) :
    (readAttempts cursor out (remaining + 1) retries).exec m =
      (({ status := .success, tornReadRetries := retries },
        { cursor with
          nextSequence := cursor.nextSequence + 1
          tornReadRetries := cursor.tornReadRetries + retries },
        (m.slots (slotOf bits cursor.nextSequence)).value), m) := by
  simp only [readAttempts, Prog.exec_load, Memory.version, held, not_true_eq_false, if_false,
    Prog.exec_bind, exec_loadWords, and_self, if_true, Prog.exec_done, List.mem_finRange]

/-- A slot that holds another sequence uses the attempts up. -/
theorem exec_readAttempts_lapped (out : Item W width) (remaining : Nat) (retries : UInt64)
    (lapped : ¬ Readable (m.slots (slotOf bits cursor.nextSequence)).version
      cursor.nextSequence) :
    ((readAttempts cursor out remaining retries).exec m).1.1.status = .retryLimit ∧
      ((readAttempts cursor out remaining retries).exec m).1.2.1.nextSequence =
        cursor.nextSequence ∧
      ((readAttempts cursor out remaining retries).exec m).1.2.1.observedPublishedSequence =
        cursor.observedPublishedSequence := by
  induction remaining generalizing retries with
  | zero => exact ⟨rfl, rfl, rfl⟩
  | succ remaining ih =>
    simp only [readAttempts, Prog.exec_load, Memory.version, lapped, not_false_eq_true, if_true]
    exact ih (retries + 1)

end Calls

theorem place_lt (bits q : Nat) : q % 2 ^ bits < 2 ^ bits := Nat.mod_lt _ (Nat.two_pow_pos bits)

/-- The slot of a sequence given as a number. -/
def place (bits q : Nat) : Fin (2 ^ bits) := ⟨q % 2 ^ bits, place_lt bits q⟩

theorem slotOf_eq (seq : UInt64) : slotOf bits seq = place bits seq.toNat := by
  apply Fin.ext
  simp only [slotOf, place, Nat.and_two_pow_sub_one_eq_mod]

/-- Two sequences less than a lap apart have different slots. -/
theorem place_ne {q n : Nat} (below : q < n) (near : n < q + 2 ^ bits) :
    place bits q ≠ place bits n := by
  intro same
  have residues : q % 2 ^ bits = n % 2 ^ bits := Fin.ext_iff.mp same
  have apart : (n - q) % 2 ^ bits = 0 := Nat.sub_mod_eq_zero_of_mod_eq residues.symm
  rw [Nat.mod_eq_of_lt (by omega)] at apart
  omega

/-- The ring after the publications of `items`: the last `2 ^ bits` of them are in their
slots. -/
structure Recent (items : List (Item W width)) (m : Memory W width bits) : Prop where
  published : m.publishedSequence.toNat = items.length
  slots : ∀ q item, items[q]? = some item → items.length ≤ q + 2 ^ bits →
    m.slots (place bits q) = ⟨encodeVersion (UInt64.ofNat q) false, item⟩

variable {items : List (Item W width)} {m : Memory W width bits} {initial : Item W width}

theorem create_recent : Recent [] (Memory.create initial : Memory W width bits) where
  published := rfl
  slots := by simp

theorem Recent.publish (recent : Recent items m) {seq : UInt64} (next : seq.toNat = items.length)
    (few : items.length < 2 ^ 62) (item : Item W width) :
    Recent (items ++ [item]) ((tryPublish seq item).exec m).2 := by
  rw [exec_tryPublish]
  have spelled : UInt64.ofNat items.length = seq := by rw [← next, UInt64.ofNat_toNat]
  constructor
  · rw [next_toNat _ (by omega), next, List.length_append, List.length_singleton]
  · intro q found published near
    rw [List.length_append, List.length_singleton] at near
    rw [slotOf_eq, next]
    simp only
    rcases Nat.lt_trichotomy q items.length with old | rfl | beyond
    · rw [Function.update_of_ne (place_ne old (by omega))]
      rw [List.getElem?_append_left old] at published
      exact recent.slots q found published (by omega)
    · rw [List.getElem?_concat_length, Option.some.injEq] at published
      rw [Function.update_self, published, spelled]
    · rw [List.getElem?_eq_none (by simp; omega)] at published
      contradiction

/-- The target's slot holds the target exactly while the ring is at most a lap ahead. -/
theorem Recent.readable_iff (recent : Recent items m) (few : items.length < 2 ^ 62)
    {target : UInt64} (published : target.toNat < items.length) :
    Readable (m.slots (slotOf bits target)).version target ↔
      items.length ≤ target.toNat + 2 ^ bits := by
  rw [Spmc.readable_iff (by omega), slotOf_eq]
  have lap := Nat.two_pow_pos bits
  constructor
  · intro holds
    by_contra lapped
    -- the last sequence of this slot is a later one
    let q := items.length - 1 - (items.length - 1 - target.toNat) % 2 ^ bits
    have residue := Nat.mod_lt (items.length - 1 - target.toNat) lap
    have below := Nat.mod_le (items.length - 1 - target.toNat) (2 ^ bits)
    have parts := Nat.div_add_mod (items.length - 1 - target.toNat) (2 ^ bits)
    have same : place bits q = place bits target.toNat := by
      apply Fin.ext
      have sum : q = target.toNat +
          2 ^ bits * ((items.length - 1 - target.toNat) / 2 ^ bits) := by omega
      simp only [place, sum, Nat.add_mul_mod_self_left]
    have later : target.toNat < q := by omega
    have inside : q < items.length := by omega
    have slot := recent.slots q items[q] (List.getElem?_eq_getElem inside) (by omega)
    rw [same] at slot
    have versions := congrArg UInt64.toNat (holds.symm.trans (congrArg Slot.version slot))
    have word : (UInt64.ofNat q).toNat = q := by
      rw [UInt64.toNat_ofNat']
      omega
    rw [encodeVersion_toNat (by omega), encodeVersion_toNat (by omega), word] at versions
    omega
  · intro near
    have slot := recent.slots target.toNat items[target.toNat]
      (List.getElem?_eq_getElem published) near
    rw [slot, UInt64.ofNat_toNat]

/-- The attempts on a sequence that is still in its slot. -/
theorem Recent.attempts_success {attempts : Nat} (recent : Recent items m)
    (cursor : SpmcReaderCursor) (out : Item W width) (few : items.length < 2 ^ 62) (positive : 1 ≤ attempts)
    (published : cursor.nextSequence.toNat < items.length)
    (near : items.length ≤ cursor.nextSequence.toNat + 2 ^ bits) :
    ((readAttempts cursor out attempts 0).exec m).1.1.status = .success ∧
      items[cursor.nextSequence.toNat]? =
        some ((readAttempts cursor out attempts 0).exec m).1.2.2 ∧
      ((readAttempts cursor out attempts 0).exec m).1.2.1.nextSequence =
        cursor.nextSequence + 1 ∧
      ((readAttempts cursor out attempts 0).exec m).1.2.1.observedPublishedSequence =
        cursor.observedPublishedSequence := by
  obtain ⟨remaining, rfl⟩ : ∃ remaining, attempts = remaining + 1 := ⟨attempts - 1, by omega⟩
  have held := (recent.readable_iff few published).mpr near
  have slot := recent.slots _ _ (List.getElem?_eq_getElem published) near
  rw [← slotOf_eq] at slot
  rw [exec_readAttempts_held remaining 0 held]
  refine ⟨rfl, ?_, rfl, rfl⟩
  simp only [slot]
  exact List.getElem?_eq_getElem published

/-- One completed call. -/
inductive SpmcCall (W : Type) (width : Nat) where
  | tryPublish (item : Item W width)
  | tryReadNext (maxRetries : UInt32)

/-- The ring, its writer and one reader, with the items published so far. -/
structure SpmcSession (W : Type) (width bits : Nat) where
  memory : Memory W width bits
  nextSequence : UInt64 := 0
  items : List (Item W width) := []
  cursor : SpmcReaderCursor := {}
  out : Item W width

namespace SpmcSession

def create (initial out : Item W width) : SpmcSession W width bits :=
  { memory := .create initial, out := out }

/-- What the reader's next call returns. -/
def answer (s : SpmcSession W width bits) (maxRetries : UInt32) : ReadReturn W width :=
  ((tryReadNext s.cursor s.out maxRetries).exec s.memory).1

def call (s : SpmcSession W width bits) : SpmcCall W width → SpmcSession W width bits
  | .tryPublish item =>
    let published := (tryPublish s.nextSequence item).exec s.memory
    { s with
      memory := published.2, nextSequence := published.1, items := s.items ++ [item] }
  | .tryReadNext maxRetries =>
    { s with cursor := (s.answer maxRetries).2.1, out := (s.answer maxRetries).2.2 }

/-- How far the reader is behind the ring. -/
def behind (s : SpmcSession W width bits) : Nat :=
  s.memory.publishedSequence.toNat - s.cursor.nextSequence.toNat

/-- A read never gives up, is empty exactly at the end, skips to the oldest item that is
left when it was lapped, and otherwise returns the item of its sequence. -/
structure Recovers (s : SpmcSession W width bits) (maxRetries : UInt32) : Prop where
  no_retryLimit : (s.answer maxRetries).1.status ≠ .retryLimit
  empty_iff : (s.answer maxRetries).1.status = .empty ↔
    s.cursor.nextSequence = s.memory.publishedSequence
  overrun : s.behind > 2 ^ bits → (s.answer maxRetries).1.status = .overrun ∧
    (s.answer maxRetries).2.1.nextSequence.toNat =
      s.memory.publishedSequence.toNat - 2 ^ bits
  success : s.cursor.nextSequence ≠ s.memory.publishedSequence → s.behind ≤ 2 ^ bits →
    (s.answer maxRetries).1.status = .success ∧
    s.items[s.cursor.nextSequence.toNat]? = some (s.answer maxRetries).2.2 ∧
    (s.answer maxRetries).2.1.nextSequence = s.cursor.nextSequence + 1

def AsClaimed (s : SpmcSession W width bits) : SpmcCall W width → Prop
  | .tryPublish _ => True
  | .tryReadNext maxRetries => s.Recovers maxRetries

/-- The reader has consumed everything it saw, or is at most a lap behind. -/
def NotLapped (s : SpmcSession W width bits) : SpmcCall W width → Prop
  | .tryPublish _ => True
  | .tryReadNext _ =>
    s.cursor.nextSequence = s.cursor.observedPublishedSequence ∨ s.behind ≤ 2 ^ bits

/-- What every run keeps, whether its reads succeed or not. -/
structure Sound (s : SpmcSession W width bits) : Prop where
  recent : Recent s.items s.memory
  next : s.nextSequence.toNat = s.items.length
  consumed : s.cursor.nextSequence.toNat ≤ s.cursor.observedPublishedSequence.toNat
  observed : s.cursor.observedPublishedSequence.toNat ≤ s.items.length
  lap : s.cursor.observedPublishedSequence.toNat ≤ s.cursor.nextSequence.toNat + 2 ^ bits

variable {s : SpmcSession W width bits} {initial out : Item W width} {maxRetries : UInt32}

theorem create_sound : (create initial out : SpmcSession W width bits).Sound where
  recent := create_recent
  next := rfl
  consumed := Nat.le_refl _
  observed := Nat.le_refl _
  lap := Nat.zero_le _

/-- Effect of a read, by what the reader knows and how far it is behind. -/
inductive ReadCase (s : SpmcSession W width bits) (answer : ReadReturn W width) : Prop where
  | empty (consumed : s.cursor.nextSequence = s.memory.publishedSequence)
      (status : answer.1.status = .empty)
      (next : answer.2.1.nextSequence = s.cursor.nextSequence)
      (observed : answer.2.1.observedPublishedSequence = s.memory.publishedSequence)
  | overrun (consumed : s.cursor.nextSequence = s.cursor.observedPublishedSequence)
      (far : s.behind > 2 ^ bits) (status : answer.1.status = .overrun)
      (next : answer.2.1.nextSequence.toNat = s.memory.publishedSequence.toNat - 2 ^ bits)
      (observed : answer.2.1.observedPublishedSequence = s.memory.publishedSequence)
  | success (ahead : s.cursor.nextSequence.toNat < s.memory.publishedSequence.toNat)
      (near : s.behind ≤ 2 ^ bits) (status : answer.1.status = .success)
      (item : s.items[s.cursor.nextSequence.toNat]? = some answer.2.2)
      (next : answer.2.1.nextSequence = s.cursor.nextSequence + 1)
      (observed : answer.2.1.observedPublishedSequence = s.memory.publishedSequence ∨
        (answer.2.1.observedPublishedSequence = s.cursor.observedPublishedSequence ∧
          s.cursor.nextSequence.toNat < s.cursor.observedPublishedSequence.toNat))
  | retryLimit (cached : s.cursor.nextSequence ≠ s.cursor.observedPublishedSequence)
      (far : s.behind > 2 ^ bits) (status : answer.1.status = .retryLimit)
      (next : answer.2.1.nextSequence = s.cursor.nextSequence)
      (observed : answer.2.1.observedPublishedSequence = s.cursor.observedPublishedSequence)

section Observed

variable {m : Memory W width bits} {cursor : SpmcReaderCursor} {items : List (Item W width)}

/-- The lap check on the observed sequence succeeds: the reader skips. -/
theorem exec_readObserved_overrun (m : Memory W width bits) (out : Item W width)
    (maxRetries : UInt32) (cursor : SpmcReaderCursor)
    (far : cursor.nextSequence.toNat + 2 ^ bits < cursor.observedPublishedSequence.toNat) :
    ((readObserved cursor out maxRetries).exec m).1.1.status = .overrun ∧
      ((readObserved cursor out maxRetries).exec m).1.2.1.nextSequence.toNat =
        cursor.observedPublishedSequence.toNat - 2 ^ bits ∧
      ((readObserved cursor out maxRetries).exec m).1.2.1.observedPublishedSequence =
        cursor.observedPublishedSequence := by
  have word := cursor.observedPublishedSequence.toNat_lt
  have lap := Nat.two_pow_pos bits
  have ahead : cursor.nextSequence < cursor.observedPublishedSequence := by
    rw [UInt64.lt_iff_toNat_lt]
    omega
  have behind := UInt64.toNat_sub_of_le _ _ (UInt64.le_of_lt ahead)
  have skipped := lap_before_toNat bits
    (show 2 ^ bits ≤ cursor.observedPublishedSequence.toNat by omega)
  simp only [readObserved]
  rw [if_pos ⟨ahead, by omega⟩]
  simp only [Prog.exec_done, skipped, and_self]

/-- Otherwise it reads the slot of its sequence. -/
theorem readObserved_near (bounded : cursor.nextSequence ≤ cursor.observedPublishedSequence)
    (near : cursor.observedPublishedSequence.toNat ≤ cursor.nextSequence.toNat + 2 ^ bits) :
    (readObserved cursor out maxRetries : Prog (Memory W width bits) _) =
      readAttempts cursor out maxRetries.toNat 0 := by
  have behind := UInt64.toNat_sub_of_le _ _ bounded
  have ordered := UInt64.le_iff_toNat_le.mp bounded
  have lap := Nat.two_pow_pos bits
  simp only [readObserved]
  rw [if_neg (fun both => by omega)]

end Observed

theorem Sound.read (sound : s.Sound) (few : s.items.length < 2 ^ 62)
    (attempts : 1 ≤ maxRetries.toNat) : s.ReadCase (s.answer maxRetries) := by
  have published := sound.recent.published
  have consumed := sound.consumed
  have observed := sound.observed
  have lap := sound.lap
  have size := Nat.two_pow_pos bits
  simp only [answer, tryReadNext]
  by_cases refresh : s.cursor.nextSequence = s.cursor.observedPublishedSequence
  · rw [if_pos refresh, Prog.exec_load]
    by_cases finished : s.cursor.nextSequence = s.memory.publishedSequence
    · rw [if_pos finished]
      exact .empty finished rfl rfl rfl
    · rw [if_neg finished]
      have ahead : s.cursor.nextSequence.toNat < s.memory.publishedSequence.toNat := by
        have apart : s.cursor.nextSequence.toNat ≠ s.memory.publishedSequence.toNat :=
          fun same => finished (UInt64.toNat_inj.mp same)
        rw [← refresh] at observed
        omega
      by_cases far : s.behind > 2 ^ bits
      · obtain ⟨status, next, seen⟩ := exec_readObserved_overrun s.memory s.out maxRetries
          { s.cursor with observedPublishedSequence := s.memory.publishedSequence }
          (by simp only [behind] at far ⊢; omega)
        exact .overrun refresh far status next seen
      · simp only [behind] at far
        rw [readObserved_near (UInt64.le_iff_toNat_le.mpr ahead.le) (by simp only; omega)]
        obtain ⟨status, item, next, seen⟩ := sound.recent.attempts_success
          { s.cursor with observedPublishedSequence := s.memory.publishedSequence } s.out
          few attempts (by simp only; omega) (by simp only; omega)
        exact .success ahead (by simp only [behind]; omega) status item next (.inl seen)
  · have ahead : s.cursor.nextSequence.toNat < s.cursor.observedPublishedSequence.toNat := by
      have apart : s.cursor.nextSequence.toNat ≠ s.cursor.observedPublishedSequence.toNat :=
        fun same => refresh (UInt64.toNat_inj.mp same)
      omega
    rw [if_neg refresh, readObserved_near (UInt64.le_iff_toNat_le.mpr ahead.le) lap]
    by_cases far : s.behind > 2 ^ bits
    · have lapped : ¬ Readable (s.memory.slots (slotOf bits s.cursor.nextSequence)).version
          s.cursor.nextSequence := by
        rw [sound.recent.readable_iff few (by omega)]
        simp only [behind] at far
        omega
      obtain ⟨status, next, seen⟩ := exec_readAttempts_lapped s.out maxRetries.toNat 0 lapped
      exact .retryLimit refresh far status next seen
    · simp only [behind] at far
      obtain ⟨status, item, next, seen⟩ := sound.recent.attempts_success s.cursor s.out
        few attempts (by omega) (by omega)
      exact .success (by omega) (by simp only [behind]; omega) status item next
        (.inr ⟨seen, ahead⟩)

/-- No read moves the cursor past what it has observed, nor leaves it a lap behind that. -/
theorem Sound.cursor_kept (sound : s.Sound) {answer : ReadReturn W width}
    (effect : s.ReadCase answer) :
    answer.2.1.nextSequence.toNat ≤ answer.2.1.observedPublishedSequence.toNat ∧
      answer.2.1.observedPublishedSequence.toNat ≤ s.items.length ∧
      answer.2.1.observedPublishedSequence.toNat ≤
        answer.2.1.nextSequence.toNat + 2 ^ bits := by
  have published := sound.recent.published
  have consumed := sound.consumed
  have observed := sound.observed
  have lap := sound.lap
  have size := Nat.two_pow_pos bits
  cases effect with
  | empty here _ next seen =>
    rw [seen, next, here]
    omega
  | overrun _ far _ next seen =>
    simp only [behind] at far
    rw [seen, next]
    omega
  | success ahead near _ _ next seen =>
    have word := s.memory.publishedSequence.toNat_lt
    have one := next_toNat s.cursor.nextSequence (by omega)
    simp only [behind] at near
    rcases seen with seen | ⟨seen, cached⟩
    · rw [seen, next, one]
      omega
    · rw [seen, next, one]
      omega
  | retryLimit _ _ _ next seen =>
    rw [seen, next]
    omega

theorem Sound.call (sound : s.Sound) (few : s.items.length < 2 ^ 62) {c : SpmcCall W width}
    (attempts : ∀ maxRetries, c = .tryReadNext maxRetries → 1 ≤ maxRetries.toNat) :
    (s.call c).Sound := by
  cases c with
  | tryPublish item =>
    have value := sound.next
    have next := next_toNat s.nextSequence (by omega)
    rw [value] at next
    refine ⟨sound.recent.publish sound.next few item, ?_, sound.consumed, ?_, sound.lap⟩
    · simp only [SpmcSession.call, exec_tryPublish, next, List.length_append,
        List.length_singleton]
    · simp only [SpmcSession.call, List.length_append]
      exact sound.observed.trans (Nat.le_add_right _ _)
  | tryReadNext maxRetries =>
    obtain ⟨consumed, observed, lap⟩ := sound.cursor_kept (sound.read few (attempts maxRetries rfl))
    exact ⟨sound.recent, sound.next, consumed, observed, lap⟩

/-- A read recovers exactly when the reader was not lapped on a sequence it had seen. -/
theorem Sound.recovers_iff (sound : s.Sound) (few : s.items.length < 2 ^ 62)
    (attempts : 1 ≤ maxRetries.toNat) :
    s.Recovers maxRetries ↔
      s.cursor.nextSequence = s.cursor.observedPublishedSequence ∨ s.behind ≤ 2 ^ bits := by
  have size := Nat.two_pow_pos bits
  have effect := sound.read few attempts
  constructor
  · intro recovers
    cases effect with
    | empty here =>
      right
      simp only [behind, here]
      omega
    | overrun consumed => exact .inl consumed
    | success _ near => exact .inr near
    | retryLimit _ _ status => exact absurd status recovers.no_retryLimit
  · intro notLapped
    cases effect with
    | empty here status =>
      refine ⟨by simp [status], by simp [status, here], ?_, fun ahead => absurd here ahead⟩
      intro far
      simp only [behind, here] at far
      omega
    | overrun _ far status next =>
      refine ⟨by simp [status], ?_, fun _ => ⟨status, next⟩, ?_⟩
      · rw [status]
        refine ⟨fun equal => absurd equal (by decide), fun here => ?_⟩
        simp only [behind, here] at far
        omega
      · exact fun _ near => absurd far (Nat.not_lt.mpr near)
    | success ahead near status item next =>
      refine ⟨by simp [status], ?_, fun far => absurd far (Nat.not_lt.mpr near),
        fun _ _ => ⟨status, item, next⟩⟩
      rw [status]
      refine ⟨fun equal => absurd equal (by decide), fun here => ?_⟩
      rw [here] at ahead
      exact absurd ahead (Nat.lt_irrefl _)
    | retryLimit cached far =>
      rcases notLapped with consumed | near
      · exact absurd consumed cached
      · exact absurd far (Nat.not_lt.mpr near)

/-- The items that the calls publish. -/
def publications (calls : List (SpmcCall W width)) : List (Item W width) :=
  calls.filterMap fun
    | .tryPublish item => some item
    | .tryReadNext _ => none

/-- A call that can be made: there is room for a publication, and a read may try once. -/
def Admissible (s : SpmcSession W width bits) (c : SpmcCall W width) : Prop :=
  s.Sound ∧ s.items.length < 2 ^ 62 ∧
    ∀ maxRetries, c = .tryReadNext maxRetries → 1 ≤ maxRetries.toNat

theorem Sound.along {calls : List (SpmcCall W width)} (sound : s.Sound)
    (few : s.items.length + (publications calls).length < 2 ^ 62)
    (attempts : ∀ maxRetries, .tryReadNext maxRetries ∈ calls → 1 ≤ maxRetries.toNat) :
    Run.Along SpmcSession.call Admissible s calls := by
  induction calls generalizing s with
  | nil => trivial
  | cons c rest ih =>
    have room : s.items.length < 2 ^ 62 := by omega
    have here : ∀ maxRetries, c = .tryReadNext maxRetries → 1 ≤ maxRetries.toNat :=
      fun maxRetries same => attempts maxRetries (by simp [same])
    refine ⟨⟨sound, room, here⟩, ih (sound.call room here) ?_
      fun maxRetries member => attempts maxRetries (by simp [member])⟩
    cases c with
    | tryPublish =>
      simp only [publications, List.filterMap_cons, List.length_cons] at few
      simp only [SpmcSession.call, List.length_append, List.length_singleton, publications]
      omega
    | tryReadNext => exact few

/-- Every read of a history recovers exactly when none of them meets a lapped reader that
still has observed sequences to consume. -/
theorem reads_recover_iff (initial out : Item W width) (calls : List (SpmcCall W width))
    (few : (publications calls).length < 2 ^ 62)
    (attempts : ∀ maxRetries, .tryReadNext maxRetries ∈ calls → 1 ≤ maxRetries.toNat) :
    Run.Along call AsClaimed (create initial out : SpmcSession W width bits) calls ↔
      Run.Along call NotLapped (create initial out : SpmcSession W width bits) calls := by
  have admissible := create_sound.along (s := (create initial out : SpmcSession W width bits))
    (by simpa [create] using few) attempts
  refine admissible.congr ?_
  rintro s c ⟨sound, room, here⟩
  cases c with
  | tryPublish => exact Iff.rfl
  | tryReadNext maxRetries => exact sound.recovers_iff room (here maxRetries rfl)

theorem reads_recover_iff_once :
    (publications [.tryPublish fun _ : Fin 1 => 7, .tryReadNext 1]).length < 2 ^ 62 ∧
    (Run.Along call AsClaimed (create (fun _ => 0) fun _ => 0 : SpmcSession Nat 1 2)
        [.tryPublish fun _ => 7, .tryReadNext 1] ↔
      Run.Along call NotLapped (create (fun _ => 0) fun _ => 0 : SpmcSession Nat 1 2)
        [.tryPublish fun _ => 7, .tryReadNext 1]) := by
  refine ⟨by decide, reads_recover_iff (fun _ => 0) (fun _ => 0) _ (by decide) ?_⟩
  intro maxRetries member
  simp only [List.mem_cons, reduceCtorEq, SpmcCall.tryReadNext.injEq, List.not_mem_nil, or_false,
    false_or] at member
  rw [member]
  decide

/-- A ring of two slots, lapped while its reader has one of two observed items left: the
next read gives up instead of skipping. -/
theorem lapped_reader_gives_up :
    let calls : List (SpmcCall Nat 1) := [.tryPublish fun _ => 1, .tryPublish fun _ => 2,
      .tryReadNext 128, .tryPublish fun _ => 3, .tryPublish fun _ => 4]
    let s := calls.foldl call (create (fun _ => 0) fun _ => 0 : SpmcSession Nat 1 1)
    s.behind = 3 ∧ (s.answer 128).1.status = .retryLimit ∧ ¬ s.Recovers 128 ∧
      ¬ Run.Along call AsClaimed (create (fun _ => 0) fun _ => 0 : SpmcSession Nat 1 1)
        (calls ++ [.tryReadNext 128]) := by
  intro calls s
  have status : (s.answer 128).1.status = .retryLimit := by decide +kernel
  have lost : ¬ s.Recovers 128 := fun recovers => recovers.no_retryLimit status
  refine ⟨by decide +kernel, status, lost, fun along => ?_⟩
  exact lost ((Run.along_append _ _ _).mp along).2.1

/-- Lapped with observed sequences left to consume. -/
def Stuck (s : SpmcSession W width bits) : Prop :=
  s.cursor.nextSequence ≠ s.cursor.observedPublishedSequence ∧ s.behind > 2 ^ bits

theorem Stuck.call (stuck : s.Stuck) {c : SpmcCall W width} (admissible : s.Admissible c) :
    (s.call c).Stuck := by
  obtain ⟨sound, few, attempts⟩ := admissible
  obtain ⟨cached, far⟩ := stuck
  cases c with
  | tryPublish item =>
    have published := (sound.recent.publish sound.next few item).published
    have before := sound.recent.published
    refine ⟨cached, ?_⟩
    simp only [behind] at far ⊢
    simp only [SpmcSession.call, published, List.length_append, List.length_singleton]
    omega
  | tryReadNext maxRetries =>
    have size := Nat.two_pow_pos bits
    simp only [Stuck, SpmcSession.call]
    cases sound.read few (attempts maxRetries rfl) with
    | empty here =>
      simp only [behind, here] at far
      omega
    | overrun consumed => exact absurd consumed cached
    | success _ near => exact absurd far (Nat.not_lt.mpr near)
    | retryLimit _ _ _ next seen =>
      rw [next, seen]
      refine ⟨cached, ?_⟩
      simp only [behind] at far ⊢
      rwa [next]

/-- A stuck reader never reads again, whatever is published. -/
theorem Stuck.forever (stuck : s.Stuck) {calls : List (SpmcCall W width)}
    (admissible : Run.Along SpmcSession.call Admissible s calls) :
    (calls.foldl SpmcSession.call s).Stuck :=
  admissible.invariant (fun _ _ stuck ok => stuck.call ok) stuck

end SpmcSession

end Spmc
end FeedHandler
