import BitTemplate.Letter

/-!
A template is written with one character per digit of its base and means one cell per bit. A
cell belongs to a field, is a placeholder, or fixes its bit. A letter or a placeholder stands
for as many equal cells as a digit has bits, and a digit for its own bits, most significant
first. In base sixteen the capital letters from A to F are digits and never fields.
-/
namespace BitTemplate

inductive Base where
  | binary
  | hexadecimal
  deriving DecidableEq

inductive Cell where
  | field (name : Letter)
  | placeholder
  | literal (value : Bool)
  deriving DecidableEq

namespace Cell

def char : Cell → Char
  | .field a => a.char
  | .placeholder => '.'
  | .literal b => if b then '1' else '0'

def letter? : Cell → Option Letter
  | .field a => some a
  | _ => none

def isPlaceholder : Cell → Bool
  | .placeholder => true
  | _ => false

def isLiteral : Cell → Bool
  | .literal _ => true
  | _ => false

def isOne : Cell → Bool
  | .literal b => b
  | _ => false

end Cell

namespace Base

def bitsPerDigit : Base → Nat
  | .binary => 1
  | .hexadecimal => 4

def adjective : Base → String
  | .binary => "binary"
  | .hexadecimal => "hexadecimal"

/-- The value of a character as a digit of the base. -/
def digit? (base : Base) (c : Char) : Option Nat :=
  match base with
  | .binary => if c = '0' then some 0 else if c = '1' then some 1 else none
  | .hexadecimal =>
    if c.isDigit then some (c.toNat - 48)
    else if 'A' ≤ c ∧ c ≤ 'F' then some (c.toNat - 55)
    else none

/-- The cells of a digit, most significant bit first. -/
def digitCells (base : Base) (digit : Nat) : List Cell :=
  (List.range base.bitsPerDigit).reverse.map fun i => .literal (digit.testBit i)

/-- The cells that a character stands for, if it may stand in a template of the base. -/
def expand? (base : Base) (c : Char) : Option (List Cell) :=
  if c = '.' then some (List.replicate base.bitsPerDigit .placeholder)
  else
    match base.digit? c with
    | some digit => some (base.digitCells digit)
    | none => (Letter.ofChar? c).map fun a => List.replicate base.bitsPerDigit (.field a)

end Base

end BitTemplate
