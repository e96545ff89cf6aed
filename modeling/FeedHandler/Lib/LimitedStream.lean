import Mathlib.Data.List.Infix

/-! Serving a filtered list to a client: what passes the filter is written in order until the
client refuses a write, a limit is reached or the list ends. -/
namespace LimitedStream

variable {α : Type*}

/-- Why a stream has ended. -/
inductive Ending where
  | refused
  | limited
  | exhausted
  deriving DecidableEq, Repr

/-- The answer of the client to the write with the given number. -/
abbrev Client := Nat → Bool

/-- The loop behind `sent` writes. A limit of 0 sets none; the counter that is compared with it
is a 32-bit word. -/
def serve (admits : α → Bool) (limit : UInt32) (client : Client) : Nat → List α → List α × Ending
  | _, [] => ([], .exhausted)
  | sent, x :: rest =>
    if admits x then
      if client sent then
        if 0 < limit ∧ limit ≤ UInt32.ofNat (sent + 1) then ([x], .limited)
        else
          let later := serve admits limit client (sent + 1) rest
          (x :: later.1, later.2)
      else ([], .refused)
    else serve admits limit client sent rest

/-- What a client gets of the items that pass the filter: the first ones, each taken, up to the
first refusal or the limit, and all of them if neither is met. -/
structure Serves (limit : UInt32) (client : Client) (sent : Nat) (admitted : List α)
    (served : List α × Ending) : Prop where
  front : served.1 <+: admitted
  taken : ∀ i < served.1.length, client (sent + i) = true
  within : 0 < limit → sent + served.1.length ≤ limit.toNat
  refused : served.2 = .refused →
    client (sent + served.1.length) = false ∧ served.1.length < admitted.length
  limited : served.2 = .limited → 0 < limit ∧ sent + served.1.length = limit.toNat
  exhausted : served.2 = .exhausted → served.1 = admitted

section Turns

variable {admits : α → Bool} {limit : UInt32} {client : Client} {sent : Nat} {x : α} {rest : List α}

theorem serve_skip (skipped : ¬ admits x = true) :
    serve admits limit client sent (x :: rest) = serve admits limit client sent rest := by
  rw [serve, if_neg skipped]

theorem serve_refused (admitted : admits x = true) (refuses : ¬ client sent = true) :
    serve admits limit client sent (x :: rest) = ([], .refused) := by
  rw [serve, if_pos admitted, if_neg refuses]

theorem serve_full (admitted : admits x = true) (accepts : client sent = true)
    (full : 0 < limit ∧ limit ≤ UInt32.ofNat (sent + 1)) :
    serve admits limit client sent (x :: rest) = ([x], .limited) := by
  rw [serve, if_pos admitted, if_pos accepts, if_pos full]

theorem serve_more (admitted : admits x = true) (accepts : client sent = true)
    (more : ¬ (0 < limit ∧ limit ≤ UInt32.ofNat (sent + 1))) :
    serve admits limit client sent (x :: rest) =
      (x :: (serve admits limit client (sent + 1) rest).1,
        (serve admits limit client (sent + 1) rest).2) := by
  rw [serve, if_pos admitted, if_pos accepts, if_neg more]

end Turns

/-- Serving the values of a function is serving its arguments. -/
theorem serve_map {β : Type*} (f : α → β) (admits : β → Bool) (limit : UInt32) (client : Client)
    (sent : Nat) (xs : List α) :
    serve admits limit client sent (xs.map f) =
      ((serve (fun x => admits (f x)) limit client sent xs).1.map f,
        (serve (fun x => admits (f x)) limit client sent xs).2) := by
  induction xs generalizing sent with
  | nil => rfl
  | cons x rest ih =>
    simp only [List.map_cons, serve, ih]
    split
    · split
      · split <;> rfl
      · rfl
    · rfl

theorem serve_serves (admits : α → Bool) (limit : UInt32) (client : Client) {sent : Nat}
    (below : 0 < limit → sent < limit.toNat) (xs : List α) :
    Serves limit client sent (xs.filter admits) (serve admits limit client sent xs) := by
  induction xs generalizing sent with
  | nil =>
    refine ⟨List.prefix_rfl, ?_, ?_, ?_, ?_, fun _ => rfl⟩ <;> simp [serve]
    exact fun positive => (below positive).le
  | cons x rest ih =>
    by_cases admitted : admits x = true
    · rw [List.filter_cons_of_pos admitted]
      by_cases accepts : client sent = true
      · by_cases full : 0 < limit ∧ limit ≤ UInt32.ofNat (sent + 1)
        · rw [serve_full admitted accepts full]
          have room := below full.1
          have word : (UInt32.ofNat (sent + 1)).toNat = sent + 1 :=
            UInt32.toNat_ofNat_of_lt' (Nat.lt_of_le_of_lt room limit.toNat_lt)
          have reached := UInt32.le_iff_toNat_le.mp full.2
          rw [word] at reached
          refine ⟨⟨rest.filter admits, rfl⟩, ?_, fun _ => room, ?_, fun _ => ?_, ?_⟩
          · intro i small
            obtain rfl : i = 0 := Nat.lt_one_iff.mp small
            exact accepts
          · intro ending
            cases ending
          · exact ⟨full.1, le_antisymm room reached⟩
          · intro ending
            cases ending
        · rw [serve_more admitted accepts full]
          have later := @ih (sent + 1) (fun positive => ?_)
          · have further : ∀ n, sent + 1 + n = sent + (n + 1) := fun n => by omega
            refine ⟨(List.prefix_cons_inj x).mpr later.front, ?_, ?_, ?_, ?_, ?_⟩
            · intro i inside
              cases i with
              | zero => exact accepts
              | succ i => exact further i ▸ later.taken i (Nat.lt_of_succ_lt_succ inside)
            · intro positive
              exact further _ ▸ later.within positive
            · intro ending
              obtain ⟨refusal, more⟩ := later.refused ending
              exact ⟨further _ ▸ refusal, Nat.succ_lt_succ more⟩
            · intro ending
              obtain ⟨positive, reached⟩ := later.limited ending
              exact ⟨positive, further _ ▸ reached⟩
            · intro ending
              exact congrArg (x :: ·) (later.exhausted ending)
          · -- below the limit the counter has not run over
            have room := below positive
            have word : (UInt32.ofNat (sent + 1)).toNat = sent + 1 :=
              UInt32.toNat_ofNat_of_lt' (Nat.lt_of_le_of_lt room limit.toNat_lt)
            by_contra beyond
            exact full ⟨positive, UInt32.le_iff_toNat_le.mpr (by rw [word]; omega)⟩
      · rw [serve_refused admitted accepts]
        refine ⟨List.nil_prefix, ?_, fun positive => (below positive).le, fun _ => ?_, ?_, ?_⟩
        · intro i inside
          exact absurd inside (Nat.not_lt_zero i)
        · exact ⟨(Bool.not_eq_true _).mp accepts, Nat.succ_pos _⟩
        · intro ending
          cases ending
        · intro ending
          cases ending
    · rw [serve_skip admitted, List.filter_cons_of_neg admitted]
      exact ih below

end LimitedStream
