import BitTemplate.Field.Basic
import BitTemplate.Numeral

/-!
A field as its caller declared it: the numerals of the positions and of the template width are
kept as they were written, beside the field that they describe.
-/
namespace BitTemplate

structure DeclaredField where
  field : Field
  positions : List Numeral
  templateWidth : Numeral

namespace DeclaredField

def ofField (f : Field) : DeclaredField where
  field := f
  positions := f.positions.map fun (p : Nat) => .int p
  templateWidth := .int f.templateWidth

/-- Numerals in parentheses; one alone is followed by a comma. -/
def tupleText (ns : List Numeral) : String :=
  match ns with
  | [n] => "(" ++ n.text ++ ",)"
  | _ => "(" ++ ", ".intercalate (ns.map Numeral.text) ++ ")"

def text (d : DeclaredField) : String :=
  "FieldLayout(" ++ d.field.name.quoted ++ ", " ++ tupleText d.positions ++ ", " ++
    d.templateWidth.text ++ ")"

/-- The integers that the text of a field writes in decimal. -/
def numbers (d : DeclaredField) : List Int :=
  d.positions.flatMap Numeral.numbers ++ d.templateWidth.numbers

end DeclaredField

end BitTemplate
