import BitTemplate.Decimal

/-!
Numbers of double precision. A finite one is a multiple of the least positive one, of which a
power of two makes up one: its multiple has at most fifty-three significant bits. Beyond the
largest there are two infinities, and there is a number without a value, which compares with
nothing.
-/
namespace BitTemplate

inductive Double where
  /-- So many times the least positive number. Zero has a sign too. -/
  | finite (negative : Bool) (units : Nat)
  | infinite (negative : Bool)
  /-- The number without a value. -/
  | undefined
  deriving DecidableEq

namespace Double

/-- How many times the least positive number makes one. -/
def one : Nat := 1 <<< 1074

/-- The least multiple of the least positive number that is out of range. -/
def bound : Nat := one <<< 1024

/-- The integer nearest to a quotient. Of two that are equally near it is the even one. -/
def nearest (n d : Nat) : Nat :=
  let q := n / d
  let twice := 2 * (n % d)
  if twice < d ∨ (twice = d ∧ q % 2 = 0) then q else q + 1

/-- The number nearest to a quotient: significant bits beyond the fifty-third are rounded. -/
def ofRatio (negative : Bool) (n d : Nat) : Double :=
  let step := 1 <<< (Bits.bitLength (n * one / d) - 53)
  let units := nearest (n * one) (d * step) * step
  if units < bound then .finite negative units else .infinite negative

/-- The number nearest to a decimal. Those that are far too small or too large are told by the
place of their point. -/
def ofDecimal (negative : Bool) (x : Decimal) : Double :=
  if x.coefficient = 0 ∨ x.point < -323 then .finite negative 0
  else if 309 < x.point then .infinite negative
  else
    ofRatio negative (x.coefficient * Decimal.shiftOf x.exponent.toNat)
      (Decimal.shiftOf (-x.exponent).toNat)

def signed (negative : Bool) (units : Nat) : Int := if negative then -units else units

def compareInt? : Double → Int → Option Ordering
  | .finite negative units, n => some (compare (signed negative units) (n * one))
  | .infinite negative, _ => some (if negative then .lt else .gt)
  | .undefined, _ => none

def same : Double → Double → Bool
  | .finite a m, .finite b n => signed a m == signed b n
  | .infinite a, .infinite b => a == b
  | _, _ => false

def isZero : Double → Bool
  | .finite _ units => units == 0
  | _ => false

def isIntegral : Double → Bool
  | .finite _ units => units % one == 0
  | _ => false

end Double

end BitTemplate
