import BitTemplate.Double.Basic
import BitTemplate.Field.Declared
import BitTemplate.Layout
import BitTemplate.Overflow
import BitTemplate.Shape.Basic

/-!
Arguments of the library may be anything at all, and a wrong one is reported by what it looks
like. A value is such an argument: plain data, an object of this library, the name of a type, or an
object that the library knows nothing about but the integer it gives when it is asked for one.
Entries of a dictionary are kept in order of insertion.
-/
namespace BitTemplate

inductive TypeName where
  | bool
  | int
  | str
  deriving DecidableEq

inductive Value where
  | none
  | bool (b : Bool)
  | int (n : Int)
  | real (x : Double)
  | text (s : String)
  | list (items : List Value)
  | dict (entries : List (Value × Value))
  | template (t : Template)
  | layout (l : Layout)
  | shape (s : Shape)
  | segment (offset length valueOffset : Value)
  | field (d : DeclaredField)
  | base (b : Base)
  | precision (p : Precision)
  | overflow (p : Overflow)
  | type (t : TypeName)
  /-- An object that gives an integer when it is asked for one, but has no arithmetic of its own.
  It is shown by a text that tells it from all others. -/
  | proxy (n : Int) (shown : String)

namespace Value

instance : Inhabited Value := ⟨.none⟩

/-- The integer numeral that a value is, if it is one. -/
def numeral? : Value → Option Numeral
  | .bool b => some (.truth b)
  | .int n => some (.int n)
  | _ => Option.none

/-- The integer that a value stands for: truth values count as one and zero. -/
def toInt? (v : Value) : Option Int := v.numeral?.map Numeral.toInt

/-- The integer that a value gives when it is asked for one. -/
def index? : Value → Option Int
  | .proxy n _ => some n
  | v => v.toInt?

def ofNumeral : Numeral → Value
  | .int n => .int n
  | .truth b => .bool b

/-- Whether a value is a number, so that it may be compared with an integer. -/
def isNumber : Value → Bool
  | .real _ => true
  | v => v.toInt?.isSome

/-- How a value compares with an integer, if it is a number that has a value. -/
def compareInt? : Value → Int → Option Ordering
  | .real x, n => x.compareInt? n
  | v, n => v.toInt?.map (compare · n)

/-- Whether a value is a number equal to an integer. -/
def equalsInt (v : Value) (n : Int) : Bool := v.compareInt? n == some .eq

def isText : Value → Bool
  | .text _ => true
  | _ => false

/-- Whether a value counts as true. Zero, empty texts and empty collections do not; a layout is
the collection of its fields. -/
def isTrue : Value → Bool
  | .none => false
  | .bool b => b
  | .int n => n != 0
  | .real x => !x.isZero
  | .text s => !s.isEmpty
  | .list items => !items.isEmpty
  | .dict entries => !entries.isEmpty
  | .layout l => !l.names.isEmpty
  | _ => true

def ofLetter (a : Letter) : Value := .text a.text

/-- The items of a value that can be gone through one by one: a text by its characters, a
dictionary by its keys, a layout by its letters. -/
def items? : Value → Option (List Value)
  | .list items => some items
  | .text s => some (s.toList.map fun c => .text (String.ofList [c]))
  | .dict entries => some (entries.map Prod.fst)
  | .layout l => some (l.names.map ofLetter)
  | _ => Option.none

/-- The entries of a value that maps keys to values: a dictionary, or a layout, which maps its
letters to their fields. -/
def entries? : Value → Option (List (Value × Value))
  | .dict entries => some entries
  | .layout l => some (l.fields.map fun f => (ofLetter f.name, .field (.ofField f)))
  | _ => Option.none

end Value

end BitTemplate
