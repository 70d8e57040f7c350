import BitTemplate.Double.Text
import BitTemplate.Value.Basic

/-!
The text of a value in a message: the literal that would write it. A value that is inserted into
a sentence shows a text without its quotes and a named constant without its content.
-/
namespace BitTemplate

namespace Base

def member : Base → String
  | .binary => "Base.BINARY"
  | .hexadecimal => "Base.HEXADECIMAL"

def quoted : Base → String
  | .binary => "<Base.BINARY: 2>"
  | .hexadecimal => "<Base.HEXADECIMAL: 16>"

end Base

namespace Precision

/-- The name under which a precision is passed as text. -/
def label : Precision → String
  | .standard => "standard"
  | .exact => "ux"

def member : Precision → String
  | .standard => "Precision.STANDARD"
  | .exact => "Precision.UX"

def quoted (p : Precision) : String :=
  "<" ++ p.member ++ ": " ++ Text.quote p.label ++ ">"

end Precision

namespace Overflow

/-- The name under which a policy is passed as text. -/
def label : Overflow → String
  | .truncate => "truncate"
  | .panic => "panic"
  | .corrupt => "corrupt"
  | .saturate => "saturate"

def member : Overflow → String
  | .truncate => "Overflow.TRUNCATE"
  | .panic => "Overflow.PANIC"
  | .corrupt => "Overflow.CORRUPT"
  | .saturate => "Overflow.SATURATE"

def quoted (p : Overflow) : String :=
  "<" ++ p.member ++ ": " ++ Text.quote p.label ++ ">"

end Overflow

namespace Shape

def quoted : Shape → String
  | .boolean => "boolean()"
  | .unsigned w _ => "unsigned(" ++ Text.decimalNat w ++ ")"

end Shape

namespace Template

def quoted (t : Template) : String :=
  match t.base with
  | .binary => "Template(" ++ Text.quote t.text ++ ")"
  | .hexadecimal => "Template(" ++ Text.quote t.text ++ ", " ++ Base.hexadecimal.member ++ ")"

end Template

namespace Layout

def quoted (l : Layout) : String := "TemplateLayout(" ++ l.template.quoted ++ ")"

end Layout

namespace Segment

def quoted (s : Segment) : String :=
  "Segment(" ++ Text.decimalNat s.offset ++ ", " ++ Text.decimalNat s.length ++ ", " ++
    Text.decimalNat s.valueOffset ++ ")"

end Segment

namespace TypeName

def name : TypeName → String
  | .bool => "bool"
  | .int => "int"
  | .str => "str"

def quoted (t : TypeName) : String := "<class " ++ Text.quote t.name ++ ">"

end TypeName

namespace Value

mutual

/-- The text of a value. A bare one is inserted into a sentence. -/
def write (bare : Bool) : Value → String
  | .none => "None"
  | .bool b => Numeral.truthText b
  | .int n => Text.decimal n
  | .real x => x.text
  | .text s => if bare then s else Text.quote s
  | .list items => "[" ++ ", ".intercalate (writeItems items) ++ "]"
  | .dict entries => "\x7b" ++ ", ".intercalate (writeEntries entries) ++ "\x7d"
  | .template t => t.quoted
  | .layout l => l.quoted
  | .shape s => s.quoted
  | .segment offset length valueOffset =>
    "Segment(" ++ write true offset ++ ", " ++ write true length ++ ", " ++
      write true valueOffset ++ ")"
  | .field d => d.text
  | .base b => if bare then b.member else b.quoted
  | .precision p => if bare then p.member else p.quoted
  | .overflow p => if bare then p.member else p.quoted
  | .type t => t.quoted
  | .proxy _ shown => shown

def writeItems : List Value → List String
  | [] => []
  | v :: rest => write false v :: writeItems rest

def writeEntries : List (Value × Value) → List String
  | [] => []
  | (k, v) :: rest => (write false k ++ ": " ++ write false v) :: writeEntries rest

end

/-- The literal that writes a value. -/
def quoted (v : Value) : String := v.write false

/-- A value as it is inserted into a sentence. -/
def shown (v : Value) : String := v.write true

mutual

/-- The integers that the text of a value writes in decimal. -/
def numbers : Value → List Int
  | .int n => [n]
  | .list items => numbersOfItems items
  | .dict entries => numbersOfEntries entries
  | .segment offset length valueOffset =>
    numbers offset ++ numbers length ++ numbers valueOffset
  | .field d => d.numbers
  | _ => []

def numbersOfItems : List Value → List Int
  | [] => []
  | v :: rest => numbers v ++ numbersOfItems rest

def numbersOfEntries : List (Value × Value) → List Int
  | [] => []
  | (k, v) :: rest => numbers k ++ numbers v ++ numbersOfEntries rest

end

end Value

end BitTemplate
