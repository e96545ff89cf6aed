import Mathlib.Data.Rat.Floor

/-! The double operations of the source. Nothing is assumed of them, so that what is proved
over a type with these operations holds for doubles with whatever rounding they have; the
rationals are the instance in which every operation is exact. -/
namespace FeedHandler

class Binary64 (D : Type*) extends Add D, Sub D, Mul D, Div D, Neg D, LT D where
  /-- A literal, or an integer converted to double. -/
  ofRat : ℚ → D
  [decidableLt : DecidableLT D]
  /-- The comparison `==`. -/
  equals : D → D → Bool
  isFinite : D → Bool
  fabs : D → D
  round : D → D
  /-- The conversion to an integer type, which cuts the fraction. -/
  toInt : D → Int

namespace Binary64

attribute [reducible, instance] decidableLt

variable {D : Type*} [Binary64 D]

def ofNat (n : Nat) : D := ofRat n

def ofInt (n : Int) : D := ofRat n

def llround (x : D) : Int := toInt (Binary64.round x)

/-- Cut towards zero. -/
def truncate (q : ℚ) : Int := if q < 0 then -⌊-q⌋ else ⌊q⌋

instance : Binary64 ℚ where
  ofRat := id
  equals := fun a b => a = b
  isFinite := fun _ => true
  fabs := fun q => |q|
  -- halves are rounded away from zero
  round := fun q => if q < 0 then -⌊-q + 1 / 2⌋ else ⌊q + 1 / 2⌋
  toInt := truncate

end Binary64

end FeedHandler
