import BitTemplate.Program.Basic
import BitTemplate.Text.Listing

/-!
The Python text of a function. Masks and shifts stand in parentheses of their own, so that the
union of terms needs none.
-/
namespace BitTemplate.Program

def Name.text : Name → String
  | .value => "value"
  | .target => "target"
  | .letter a => a.text
  | .input index => "input_" ++ Text.decimalNat index
  | .saturated index => "saturated_" ++ Text.decimalNat index

def Constant.text (c : Constant) : String := Text.fixedHex c.value c.width

def Term.text : Term → String
  | .name x => x.text
  | .constant c => c.text
  | .mask t c => "(" ++ t.text ++ " & " ++ c.text ++ ")"
  | .left t distance => "(" ++ t.text ++ " << " ++ Text.decimalNat distance ++ ")"
  | .right t distance => "(" ++ t.text ++ " >> " ++ Text.decimalNat distance ++ ")"

def unionText : List Term → String
  | [] => "0"
  | terms => " | ".intercalate (terms.map Term.text)

def Expr.text : Expr → String
  | .union terms => unionText terms
  | .bounded terms c => "(" ++ unionText terms ++ ") & " ++ c.text
  | .test x c => "(" ++ x.text ++ " & " ++ c.text ++ ") != 0"

def Step.write (l : Text.Listing) : Step → Text.Listing
  | .refuse x field limit =>
    let l := l.append ("if " ++ x.text ++ " > " ++ limit.text ++ ":")
    let call :=
      "overflow(" ++ field.quoted ++ ", " ++ x.text ++ ", " ++ Text.decimalNat limit.width ++ ")"
    (l.indent.append call).dedent
  | .clamp x source limit =>
    l.append (x.text ++ " = min(" ++ source.text ++ ", " ++ limit.text ++ ")")
  | .assign x e => l.append (x.text ++ " = " ++ e.text)

/-- The items of a tuple; one alone is followed by a comma. -/
def tupleText : List String → String
  | [item] => "(" ++ item ++ ",)"
  | items => "(" ++ ", ".intercalate items ++ ")"

def Return.text : Return → String
  | .value e => e.text
  | .tuple items => tupleText (items.map Expr.text)
  | .record name items => name ++ "(" ++ ", ".intercalate (items.map Expr.text) ++ ")"

namespace Function

/-- The first line of a function. -/
def header (f : Function) : String :=
  "def " ++ f.name ++ "(" ++ ", ".intercalate (f.params.map Name.text) ++ "):"

def write (f : Function) (l : Text.Listing) : Text.Listing :=
  let l := (l.append f.header).indent
  let l := f.steps.foldl Step.write l
  (l.append ("return " ++ f.result.text)).dedent

def text (f : Function) : String := (f.write {}).text

end Function

end BitTemplate.Program
