import BitTemplate.Template.Basic
import BitTemplate.Text.Quoted

/-!
A diagnostic names a fault of a template and, where one character is to blame, the index of that
character. It is shown as the sentence that states the fault, the text of the template under it
with every blank as a plain space, and a caret under the character.
-/
namespace BitTemplate

inductive Fault where
  /-- A character that may not stand in a template of the base. -/
  | invalidCharacter (c : Char) (base : Base)
  /-- A number of bits that is not a standard width. -/
  | wrongWidth (bits : Nat)
  /-- A placeholder where every bit needs a value. -/
  | placeholder (purpose hint : String)
  /-- A literal where nothing can be fixed. -/
  | literal (digit : Char) (purpose hint : String)
  /-- A letter that two input templates produce. -/
  | duplicateField (name : Letter) (first second : Nat)
  /-- An output letter that no input template produces. -/
  | unproducedField (name : Letter)
  /-- A letter that got no value. -/
  | unboundField (name : Letter)
  deriving DecidableEq

namespace Fault

def sentence : Fault → String
  | .invalidCharacter c base =>
    "Invalid character " ++ Text.quote (String.ofList [c]) ++ " in " ++ base.adjective ++
      " template"
  | .wrongWidth bits =>
    "Template must be 8, 16, 32, 64, or 128 bits wide, not " ++ Text.decimalNat bits ++
      " bits wide"
  | .placeholder purpose hint => "Placeholder '.' is not allowed in " ++ purpose ++ hint
  | .literal digit purpose hint =>
    "Literal " ++ Text.quote (String.ofList [digit]) ++ " is not allowed in " ++ purpose ++ hint
  | .duplicateField name first second =>
    "Field " ++ name.quoted ++ " is produced by input template #" ++ Text.decimalNat first ++
      " and input template #" ++ Text.decimalNat second
  | .unproducedField name => "Field " ++ name.quoted ++ " is not produced by any input template"
  | .unboundField name => "No value was provided for field " ++ name.quoted

end Fault

structure Diagnostic where
  fault : Fault
  text : String
  index : Option Nat
  deriving DecidableEq

namespace Diagnostic

/-- The line with the caret under the character at an index. -/
def caretLine (index : Int) : List Char :=
  List.replicate (4 + index.toNat) ' ' ++ ['^']

/-- A sentence, the line of the template that it is about, and the place that it points at. -/
def render (sentence line : String) (index : Option Int) : String :=
  let shown := sentence ++ "\n    " ++ line
  match index with
  | none => shown
  | some index => shown ++ "\n" ++ String.ofList (caretLine index)

def message (d : Diagnostic) : String :=
  render d.fault.sentence (String.ofList (Text.flatten d.text.toList))
    (d.index.map fun (i : Nat) => (i : Int))

end Diagnostic

end BitTemplate
