import Mathlib.Logic.Function.Basic

/-! Files that grow at their end. The system takes any part of what a write call offers,
so a writer that wants all of it stored offers the rest again. -/
namespace AppendFile

/-- What the system answers: the files it opens, whether it reads through a descriptor that
was opened for writing only (POSIX: `EBADF`), and how much the call with the given number
takes of an offer of so many bytes, or a number that is not positive. -/
structure Os (Path : Type*) where
  opens : Path → Bool
  readsWriteOnly : Bool := false
  writes : Nat → Nat → Int

/-- The files that exist and the number of write calls answered so far. -/
structure Disk (Path : Type*) where
  files : Path → Option (List UInt8)
  calls : Nat := 0

variable {Path : Type*}

/-- Every call takes something of a proper offer and no more than the offer. -/
structure Os.Accepting (os : Os Path) : Prop where
  some_taken : ∀ call offered, 0 < offered → 0 < os.writes call offered
  no_more : ∀ call offered, 0 < offered → os.writes call offered ≤ offered

/-- The system takes something of every proper offer before the call with the number `stop`, and
nothing from that call on: the process is gone, or the disk is full. -/
structure Os.StopsAt (os : Os Path) (stop : Nat) : Prop where
  some_taken : ∀ call offered, call < stop → 0 < offered → 0 < os.writes call offered
  nothing : ∀ call offered, stop ≤ call → 0 < offered → os.writes call offered ≤ 0

/-- A system that opens every file and takes at most `first` bytes of the first offer and
`later` bytes of every other. -/
def Os.partialWrites (reads : Bool) (first later : Nat) : Os Path where
  opens := fun _ => true
  readsWriteOnly := reads
  writes := fun call offered => Nat.cast (min (if call = 0 then first else later) offered)

theorem Os.partialWrites_accepting {reads : Bool} {first later : Nat} (some_first : 0 < first)
    (some_later : 0 < later) : (partialWrites reads first later : Os Path).Accepting where
  some_taken := by
    intro call offered proper
    simp only [partialWrites]
    split <;> omega
  no_more := by
    intro call offered proper
    simp only [partialWrites]
    omega

namespace Disk

def content (d : Disk Path) (path : Path) : List UInt8 := (d.files path).getD []

theorem files_eq {d : Disk Path} {path : Path} {bytes : List UInt8} (content : d.content path = bytes)
    (stored : bytes ≠ []) : d.files path = some bytes := by
  rw [Disk.content] at content
  cases file : d.files path with
  | none =>
    rw [file] at content
    exact absurd content.symm stored
  | some held =>
    rw [file] at content
    exact congrArg some content

variable [DecidableEq Path]

def create (d : Disk Path) (path : Path) : Disk Path :=
  { d with files := Function.update d.files path (some (d.content path)) }

/-- Opening a file with `O_TRUNC`. -/
def truncate (d : Disk Path) (path : Path) : Disk Path :=
  { d with files := Function.update d.files path (some []) }

def remove (d : Disk Path) (path : Path) : Disk Path :=
  { d with files := Function.update d.files path none }

/-- The first bytes of a file, read through a descriptor for writing. -/
def pread (os : Os Path) (d : Disk Path) (path : Path) (width : Nat) : Option (List UInt8) :=
  if os.readsWriteOnly && decide (width ≤ (d.content path).length) then
    some ((d.content path).take width)
  else none

/-- One write call. -/
def write (os : Os Path) (d : Disk Path) (path : Path) (bytes : List UInt8) : Disk Path where
  files := Function.update d.files path
    (some (d.content path ++ bytes.take (os.writes d.calls bytes.length).toNat))
  calls := d.calls + 1

/-- Offers the rest again and again until it is stored or a call takes nothing. Every call
that takes something shortens the rest, so its length is fuel enough. -/
def writeAll (os : Os Path) (path : Path) : Nat → Disk Path → List UInt8 → Disk Path
  | 0, d, _ => d
  | fuel + 1, d, rest =>
    if rest = [] then d
    else if os.writes d.calls rest.length ≤ 0 then d.write os path rest
    else
      writeAll os path fuel (d.write os path rest)
        (rest.drop (os.writes d.calls rest.length).toNat)

@[simp] theorem content_create (d : Disk Path) (path : Path) :
    (d.create path).content path = d.content path := by
  simp [create, content]

theorem content_write (os : Os Path) (d : Disk Path) (path : Path) (bytes : List UInt8) :
    (d.write os path bytes).content path =
      d.content path ++ bytes.take (os.writes d.calls bytes.length).toNat := by
  simp [write, content]

@[simp] theorem content_remove (d : Disk Path) (path : Path) :
    (d.remove path).content path = [] := by
  simp [remove, content]

@[simp] theorem content_truncate (d : Disk Path) (path : Path) :
    (d.truncate path).content path = [] := by
  simp [truncate, content]

section Others

variable {path other : Path} (apart : other ≠ path)

include apart

theorem content_create_other (d : Disk Path) : (d.create path).content other = d.content other := by
  simp [create, content, apart]

theorem content_remove_other (d : Disk Path) : (d.remove path).content other = d.content other := by
  simp [remove, content, apart]

theorem content_truncate_other (d : Disk Path) :
    (d.truncate path).content other = d.content other := by
  simp [truncate, content, apart]

theorem content_write_other (os : Os Path) (d : Disk Path) (bytes : List UInt8) :
    (d.write os path bytes).content other = d.content other := by
  simp [write, content, apart]

theorem content_writeAll_other (os : Os Path) (fuel : Nat) (d : Disk Path) (rest : List UInt8) :
    (writeAll os path fuel d rest).content other = d.content other := by
  induction fuel generalizing d rest with
  | zero => rfl
  | succ fuel ih =>
    simp only [writeAll]
    split
    · rfl
    · split
      · exact content_write_other apart os d rest
      · rw [ih, content_write_other apart]

end Others

/-- However the calls split the bytes, all of them are stored in order. -/
theorem content_writeAll {os : Os Path} (accepting : os.Accepting) (path : Path) {fuel : Nat}
    {rest : List UInt8} (enough : rest.length ≤ fuel) (d : Disk Path) :
    (writeAll os path fuel d rest).content path = d.content path ++ rest := by
  induction fuel generalizing d rest with
  | zero =>
    have done : rest = [] := List.length_eq_zero_iff.mp (Nat.le_zero.mp enough)
    simp [writeAll, done]
  | succ fuel ih =>
    simp only [writeAll]
    split
    · next done => simp [done]
    · next more =>
      have offered : 0 < rest.length := List.length_pos_iff.mpr more
      have taken := accepting.some_taken d.calls rest.length offered
      rw [if_neg (by omega), ih (by rw [List.length_drop]; omega), content_write,
        List.append_assoc, List.take_append_drop]

/-- On a system that stops, an initial part of the bytes is stored: all of them if it has not
stopped by then, and none of them if it had before. -/
theorem content_writeAll_stopping {os : Os Path} {stop : Nat} (stops : os.StopsAt stop)
    (path : Path) {fuel : Nat} {rest : List UInt8} (enough : rest.length ≤ fuel) (d : Disk Path) :
    let after := writeAll os path fuel d rest
    d.calls ≤ after.calls ∧ ∃ kept, kept <+: rest ∧
      after.content path = d.content path ++ kept ∧
      (after.calls ≤ stop → kept = rest) ∧ (stop < d.calls → kept = []) := by
  induction fuel generalizing d rest with
  | zero =>
    have done : rest = [] := List.length_eq_zero_iff.mp (Nat.le_zero.mp enough)
    exact ⟨Nat.le_refl _, [], List.nil_prefix, (List.append_nil _).symm, fun _ => done.symm, fun _ => rfl⟩
  | succ fuel ih =>
    simp only [writeAll]
    split
    · next done =>
      exact ⟨Nat.le_refl _, [], List.nil_prefix, (List.append_nil _).symm, fun _ => done.symm, fun _ => rfl⟩
    · next more =>
      have offered : 0 < rest.length := List.length_pos_iff.mpr more
      by_cases running : d.calls < stop
      · have taken := stops.some_taken d.calls rest.length running offered
        rw [if_neg (by omega)]
        obtain ⟨later, kept, front, stored, all, -⟩ :=
          ih (show (rest.drop (os.writes d.calls rest.length).toNat).length ≤ fuel by
            rw [List.length_drop]
            omega) (d.write os path rest)
        obtain ⟨tail, whole⟩ := front
        refine ⟨Nat.le_of_succ_le later, rest.take (os.writes d.calls rest.length).toNat ++ kept,
          ⟨tail, ?_⟩, ?_, ?_, fun stopped => absurd running (by omega)⟩
        · rw [List.append_assoc, whole, List.take_append_drop]
        · rw [stored, content_write, List.append_assoc]
        · intro alive
          rw [all alive, List.take_append_drop]
      · have refused := stops.nothing d.calls rest.length (Nat.not_lt.mp running) offered
        have none_taken : (os.writes d.calls rest.length).toNat = 0 := by omega
        rw [if_pos refused]
        refine ⟨Nat.le_succ _, [], List.nil_prefix, ?_, fun alive => ?_, fun _ => rfl⟩
        · rw [content_write, none_taken, List.take_zero]
        · have counted : (d.write os path rest).calls = d.calls + 1 := rfl
          omega

end Disk
end AppendFile
