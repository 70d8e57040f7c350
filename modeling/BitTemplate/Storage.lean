import BitTemplate.Slot
import BitTemplate.Value.Reading

/-!
Storing values in slots. A value is adapted to its slot by the overflow policy, unless its
declared width fits, and then deposited bit by bit; what spills is added above the field.
-/
namespace BitTemplate

namespace Overflow

/-- The value that is stored in a slot of so many bits, for a name and a width as they are to be
reported. -/
def adapt (policy : Overflow) (name width : Value) (bits : Nat) (value : Int) :
    Except Error Int :=
  match policy.adapt? bits value with
  | some stored => .ok stored
  | none => .error (.excess name value width)

def adaptValue (value width policy name : Value) : Except Error Int := do
  let value ← value.integer
  let policy ← ofValue policy
  let bits ← width.integer
  if bits < 0 then .error (.negativeWidth bits) else adapt policy name width bits.toNat value

end Overflow

namespace Slot

/-- A declared width, which has to be a positive integer. -/
def readSourceWidth (name : Letter) (v : Value) : Except Error (Option Numeral) :=
  match v with
  | .none => .ok none
  | v =>
    match v.numeral? with
    | some n => if 1 ≤ n.toInt then .ok (some n) else .error (.sourceWidth name v)
    | none => .error (.sourceWidth name v)

/-- The slot of a field with settings that may be any values. -/
def make (field : Field) (overflow sourceWidth : Value) : Except Error Slot := do
  let sourceWidth ← readSourceWidth field.name sourceWidth
  let overflow ← Overflow.ofValue overflow
  return ⟨field, overflow, sourceWidth⟩

def declare (field overflow sourceWidth : Value) : Except Error (DeclaredField × Slot) :=
  match field with
  | .field d => (make d.field overflow sourceWidth).map fun slot => (d, slot)
  | v => .error (.notAField v)

def text (s : Slot) (field : String) : String :=
  let declared :=
    match s.sourceWidth with
    | some n => n.text
    | none => "None"
  "Slot(" ++ field ++ ", " ++ s.overflow.member ++ ", source_width=" ++ declared ++ ")"

def store (s : Slot) (value : Int) : Except Error Int := do
  let value ←
    if s.checked then s.overflow.adapt (.ofLetter s.name) (.int s.width) s.width value
    else pure value
  let bits := s.field.deposit value
  return if s.spills then Bits.lor bits (s.field.spill value) else bits

def storeValue (s : Slot) (value : Value) : Except Error Int := do
  s.store (← value.integer)

end Slot

end BitTemplate
