import BitTemplate.Field.Basic
import BitTemplate.Numeral
import BitTemplate.Overflow

/-!
A slot is a field that values are stored in, with the policy for values that do not fit and the
width that they are declared to have. Values whose declared width fits need no policy.
-/
namespace BitTemplate

structure Slot where
  field : Field
  overflow : Overflow
  sourceWidth : Option Numeral

namespace Slot

def name (s : Slot) : Letter := s.field.name

def width (s : Slot) : Nat := s.field.width

/-- Whether the overflow policy applies to the values of the slot. -/
def checked (s : Slot) : Bool :=
  match s.sourceWidth with
  | none => true
  | some declared => decide ((s.width : Int) < declared.toInt)

/-- Whether a stored value may have bits outside of the field. -/
def spills (s : Slot) : Bool := s.checked && s.overflow == .corrupt

end Slot

end BitTemplate
