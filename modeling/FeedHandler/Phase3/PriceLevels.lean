import FeedHandler.Phase3.OrderBookEngine

/-! What the level vectors of a book show: a quantity for each price, with the prices
of quantity zero left out. Adding and reducing are addition and subtraction of the
quantity shown as long as no total leaves 64 bits. -/
namespace FeedHandler

theorem priceBefore_strict (descending : Bool) : FlatMap.StrictOrder (priceBefore descending) where
  irrefl := by
    intro a
    cases descending <;> simp [priceBefore]
  trans := by
    intro a b c first second
    cases descending <;>
      simp only [priceBefore, decide_eq_true_eq, if_true, if_false, Bool.false_eq_true,
        gt_iff_lt] at first second ⊢
    · exact UInt32.lt_trans first second
    · exact UInt32.lt_trans second first
  connected := by
    intro a b first second
    cases descending <;>
      simp only [priceBefore, decide_eq_false_iff_not, if_true, if_false, Bool.false_eq_true,
        gt_iff_lt, UInt32.not_lt] at first second
    · exact UInt32.le_antisymm second first
    · exact UInt32.le_antisymm first second

/-- How a quantity appears in a level vector. -/
def shown (total : Nat) : Option UInt64 :=
  if 0 < total then some (UInt64.ofNat total) else none

@[simp] theorem shown_zero : shown 0 = none := rfl

theorem shown_pos {total : Nat} (positive : 0 < total) : shown total = some (UInt64.ofNat total) :=
  if_pos positive

/-- The vector shows the quantities `f`, best price first. -/
structure Shows (descending : Bool) (levels : List BookLevel) (f : UInt32 → Nat) : Prop where
  sorted : FlatMap.Sorted (priceBefore descending) levels
  level : ∀ price qty, (price, qty) ∈ levels ↔ shown (f price) = some qty
  small : ∀ price, f price < wordSize

/-- The level at `price` has the quantity `total`, and is there iff that is positive. -/
def LevelExact (levels : List BookLevel) (price : UInt32) (total : Nat) : Prop :=
  (∀ qty, (price, qty) ∈ levels → qty.toNat = total) ∧
    ((∃ qty, (price, qty) ∈ levels) ↔ 0 < total)

namespace Shows

variable {descending : Bool} {levels : List BookLevel} {f g : UInt32 → Nat} {price qty : UInt32}

theorem nil : Shows descending [] (fun _ => 0) where
  sorted := List.Pairwise.nil
  level := by simp
  small := fun _ => by simp [wordSize]

theorem find?_eq (shows : Shows descending levels f) (price : UInt32) :
    FlatMap.find? (priceBefore descending) levels price = shown (f price) := by
  apply Option.ext
  intro qty
  rw [shows.sorted.find?_iff (priceBefore_strict descending), shows.level]

theorem alter (shows : Shows descending levels f) (small : ∀ price, g price < wordSize)
    (same : ∀ other, other ≠ price → g other = f other) {change : Option UInt64 → Option UInt64}
    (here : change (shown (f price)) = shown (g price)) :
    Shows descending (FlatMap.alter (priceBefore descending) levels price change) g where
  sorted := shows.sorted.alter (priceBefore_strict descending) price change
  level := by
    intro other qty
    rw [shows.sorted.mem_alter (priceBefore_strict descending), shows.find?_eq, here]
    split
    · next own => rw [own]
    · next distinct => rw [shows.level, same other distinct]
  small := small

theorem addQty (shows : Shows descending levels f) (positive : 0 < qty)
    (small : ∀ price, g price < wordSize)
    (grown : ∀ other, g other = f other + if other = price then qty.toNat else 0) :
    Shows descending (addQty levels price qty descending) g := by
  have amount : 0 < qty.toNat := UInt32.lt_iff_toNat_lt.mp positive
  have here : g price = f price + qty.toNat := by simpa using grown price
  refine shows.alter small (fun other distinct => by simpa [distinct] using grown other) ?_
  rw [shown_pos (show 0 < g price by omega), here, UInt64.ofNat_add, UInt64.ofNat_uInt32ToNat]
  rcases Nat.eq_zero_or_pos (f price) with absent | present
  · simp [absent]
  · simp only [shown_pos present]

/-- A reduction by no more than is shown. -/
theorem reduceQty (shows : Shows descending levels f)
    (shrunk : ∀ other, g other + (if other = price then qty.toNat else 0) = f other) :
    Shows descending (reduceQty levels price qty descending) g := by
  have here : g price + qty.toNat = f price := by simpa using shrunk price
  have small : ∀ other, g other < wordSize := by
    intro other
    have bound := shows.small other
    have part := shrunk other
    omega
  refine shows.alter small (fun other distinct => by simpa [distinct] using shrunk other) ?_
  rcases Nat.eq_zero_or_pos (f price) with absent | present
  · simp [absent, show g price = 0 by omega]
  · have bound := shows.small price
    have resting : (UInt64.ofNat (f price)).toNat = f price := Nat.mod_eq_of_lt bound
    simp only [shown_pos present]
    split
    · next more =>
      have above : qty.toNat < f price := by
        have less := UInt64.lt_iff_toNat_lt.mp more
        rwa [resting, UInt32.toNat_toUInt64] at less
      rw [shown_pos (show 0 < g price by omega), Option.some.injEq]
      apply UInt64.toNat_inj.mp
      rw [UInt64.toNat_sub_of_le _ _ (UInt64.le_of_lt more), resting, UInt32.toNat_toUInt64]
      have left : (UInt64.ofNat (g price)).toNat = g price := Nat.mod_eq_of_lt (small price)
      omega
    · next rest =>
      have below : f price ≤ qty.toNat := by
        have less := UInt64.le_iff_toNat_le.mp (UInt64.not_lt.mp rest)
        rwa [resting, UInt32.toNat_toUInt64] at less
      rw [show g price = 0 by omega, shown_zero]

theorem mem_iff (shows : Shows descending levels f) {quantity : UInt64} :
    (price, quantity) ∈ levels ↔ quantity.toNat = f price ∧ 0 < f price := by
  rw [shows.level]
  rcases Nat.eq_zero_or_pos (f price) with absent | present
  · simp [absent]
  · have resting : (UInt64.ofNat (f price)).toNat = f price := Nat.mod_eq_of_lt (shows.small price)
    rw [shown_pos present, Option.some.injEq, ← UInt64.toNat_inj, resting]
    exact ⟨fun same => ⟨same.symm, present⟩, fun same => same.1.symm⟩

theorem levelExact (shows : Shows descending levels f) (price : UInt32) :
    LevelExact levels price (f price) := by
  refine ⟨fun qty listed => (shows.mem_iff.mp listed).1, ?_⟩
  constructor
  · rintro ⟨qty, listed⟩
    exact (shows.mem_iff.mp listed).2
  · intro positive
    exact ⟨UInt64.ofNat _, (shows.level _ _).mpr (shown_pos positive)⟩

end Shows

theorem LevelExact.unique {levels : List BookLevel} {price : UInt32} {a b : Nat}
    (first : LevelExact levels price a) (second : LevelExact levels price b) : a = b := by
  obtain ⟨quantity, present⟩ := first
  obtain ⟨quantity', present'⟩ := second
  rcases Nat.eq_zero_or_pos a with absent | positive
  · have empty : ¬ 0 < b := by
      rw [← present', present, absent]
      exact Nat.lt_irrefl 0
    omega
  · obtain ⟨qty, listed⟩ := present.mpr positive
    rw [← quantity qty listed, ← quantity' qty listed]

def Side.descending : Side → Bool
  | .buy => true
  | _ => false

namespace VenueBook

def levels (book : VenueBook) : Side → List BookLevel
  | .buy => book.bids
  | .sell => book.asks
  | .unknown => []

/-- Both sides of the book show their quantities. -/
def Displays (book : VenueBook) (f : Side → UInt32 → Nat) : Prop :=
  ∀ side, side ≠ .unknown → Shows side.descending (book.levels side) (f side)

variable {book : VenueBook} {f g : Side → UInt32 → Nat} {side : Side} {price qty : UInt32}

theorem empty_displays : ({} : VenueBook).Displays (fun _ _ => 0) := by
  intro side known
  cases side with
  | buy => exact Shows.nil
  | sell => exact Shows.nil
  | unknown => exact absurd rfl known

theorem levels_add (side other : Side) (known : side ≠ .unknown) :
    (book.add side price qty).levels other =
      if other = side then addQty (book.levels side) price qty side.descending
      else book.levels other := by
  cases side <;> cases other <;> first | rfl | exact absurd rfl known

theorem levels_reduce (side other : Side) :
    (book.reduce side price qty).levels other =
      if other = side then reduceQty (book.levels side) price qty side.descending
      else book.levels other := by
  cases side <;> cases other <;> rfl

theorem Displays.add (displays : book.Displays f) (known : side ≠ .unknown) (positive : 0 < qty)
    (small : ∀ other price, g other price < wordSize)
    (grown : ∀ other level, g other level =
      f other level + if other = side ∧ level = price then qty.toNat else 0) :
    (book.add side price qty).Displays g := by
  intro other otherKnown
  rw [levels_add side other known]
  split
  · next same =>
    subst same
    exact (displays other known).addQty positive (small other) (by simpa using grown other)
  · next distinct =>
    have unchanged : g other = f other := by
      funext level
      simpa [distinct] using grown other level
    rw [unchanged]
    exact displays other otherKnown

theorem Displays.reduce (displays : book.Displays f)
    (shrunk : ∀ other level, g other level + (if other = side ∧ level = price then qty.toNat else 0) =
      f other level) :
    (book.reduce side price qty).Displays g := by
  intro other otherKnown
  rw [levels_reduce side other]
  split
  · next same =>
    subst same
    exact (displays other otherKnown).reduceQty (by simpa using shrunk other)
  · next distinct =>
    have unchanged : g other = f other := by
      funext level
      simpa [distinct] using shrunk other level
    rw [unchanged]
    exact displays other otherKnown

end VenueBook
end FeedHandler
