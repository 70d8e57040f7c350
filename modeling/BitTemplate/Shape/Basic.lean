import BitTemplate.Template.Basic
import BitTemplate.Text.Digits

/-!
The shape of an extracted value is boolean, one bit wide, or unsigned with one to 128 bits.
-/
namespace BitTemplate

/-- The rule by which a field's shape is chosen: the narrowest standard width, or the exact
width of the field. -/
inductive Precision where
  | standard
  | exact
  deriving DecidableEq

inductive Shape where
  | boolean
  | unsigned (width : Nat) (inRange : 1 ≤ width ∧ width ≤ 128)
  deriving DecidableEq

namespace Shape

def width : Shape → Nat
  | .boolean => 1
  | .unsigned w _ => w

def isBoolean : Shape → Bool
  | .boolean => true
  | .unsigned _ _ => false

/-- Whether a shape is boolean or has a standard width. -/
def isStandard : Shape → Bool
  | .boolean => true
  | .unsigned w _ => standardWidths.contains w

/-- The unsigned shape of a width, if there is one. -/
def unsigned? (n : Int) : Option Shape :=
  if h : 1 ≤ n ∧ n ≤ 128 then some (.unsigned n.toNat (by omega)) else none

def name : Shape → String
  | .boolean => "bool"
  | .unsigned w _ => "u" ++ Text.decimalNat w

end Shape

end BitTemplate
