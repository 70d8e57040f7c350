import BitTemplate.Text.Digits

/-!
A listing collects lines of code at a current depth of indentation, and hands out variable names
that it has not handed out before.
-/
namespace BitTemplate.Text

structure Listing where
  text : String := ""
  level : Nat := 0
  /-- How many names have been handed out. -/
  named : Nat := 0

namespace Listing

/-- Four spaces per level. -/
def indentation (level : Nat) : String := String.ofList (List.replicate (4 * level) ' ')

def append (l : Listing) (code : String) : Listing :=
  { l with text := l.text ++ indentation l.level ++ code ++ "\n" }

def indent (l : Listing) : Listing := { l with level := l.level + 1 }

def dedent (l : Listing) : Listing := { l with level := l.level - 1 }

/-- A name that has not been handed out before. -/
def freshName (l : Listing) (stem : String) : String × Listing :=
  (stem ++ "_" ++ decimalNat l.named, { l with named := l.named + 1 })

/-- Add a line that assigns a value to a fresh name. -/
def define (l : Listing) (stem value : String) : String × Listing :=
  let (name, l) := l.freshName stem
  (name, l.append (name ++ " = " ++ value))

def flush (l : Listing) : String × Listing := (l.text, { l with text := "" })

end Listing

end BitTemplate.Text
