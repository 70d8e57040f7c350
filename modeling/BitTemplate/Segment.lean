import BitTemplate.Bits
import BitTemplate.Text.Digits

/-!
A segment moves a run of adjacent bits between a template value, where it starts at `offset`,
and a field value, where it starts at `valueOffset`. Either way takes one mask and one shift.
-/
namespace BitTemplate

structure Segment where
  offset : Nat
  length : Nat
  valueOffset : Nat
  deriving DecidableEq

namespace Segment

/-- The distance from the field bits to the template bits; negative if they lie lower there. -/
def shift (s : Segment) : Int := (s.offset : Int) - s.valueOffset

def mask (s : Segment) : Nat := Bits.mask s.length s.offset

def valueMask (s : Segment) : Nat := Bits.mask s.length s.valueOffset

/-- The field bits that the segment takes from a template value. -/
def extract (s : Segment) (value : Int) : Int :=
  let bits := Bits.land value s.mask
  if s.valueOffset ≤ s.offset then bits >>> (s.offset - s.valueOffset)
  else bits <<< (s.valueOffset - s.offset)

/-- The template bits that the segment makes of a field value. -/
def deposit (s : Segment) (value : Int) : Int :=
  let moved :=
    if s.valueOffset ≤ s.offset then value <<< (s.offset - s.valueOffset)
    else value >>> (s.valueOffset - s.offset)
  Bits.land moved s.mask

end Segment

end BitTemplate
