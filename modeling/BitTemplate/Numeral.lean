import BitTemplate.Text.Digits

/-!
An integer argument as its caller wrote it. A truth value may stand for an integer, true for one
and false for zero, and is shown as the word that was written.
-/
namespace BitTemplate

inductive Numeral where
  | int (n : Int)
  | truth (b : Bool)
  deriving DecidableEq

namespace Numeral

def toInt : Numeral → Int
  | .int n => n
  | .truth b => if b then 1 else 0

def truthText (b : Bool) : String := if b then "True" else "False"

def text : Numeral → String
  | .int n => Text.decimal n
  | .truth b => truthText b

/-- The integers that the text of a numeral writes in decimal. -/
def numbers : Numeral → List Int
  | .int n => [n]
  | .truth _ => []

end Numeral

end BitTemplate
