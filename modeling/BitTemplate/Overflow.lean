import BitTemplate.Bits

/-!
What becomes of a value with more bits than its field has room for: the excess is cut off, the
value is refused, the excess spills over the bits above the field, or the value is lowered to
the largest one that fits.
-/
namespace BitTemplate

inductive Overflow where
  | truncate
  | panic
  | corrupt
  | saturate
  deriving DecidableEq

namespace Overflow

/-- The value that is stored in `width` bits, or `none` if it is refused. A value that spills is
left as it is. -/
def adapt? (policy : Overflow) (width : Nat) (value : Int) : Option Int :=
  let limit : Int := Bits.ones width
  match policy with
  | .truncate => some (Bits.land value limit)
  | .panic => if limit < value then none else some value
  | .saturate => some (if limit < value then limit else value)
  | .corrupt => some value

end Overflow

end BitTemplate
