import BitTemplate.Value.Reading

/-!
Arranging values in the order of fields. Values given by position come first, then those given by
keyword; what is left is looked up among the variables of the caller, local before global.
-/
namespace BitTemplate

/-- The variables that a caller can see. -/
structure Scope where
  locals : List (String × Value) := []
  globals : List (String × Value) := []

namespace Scope

def find? (scope : Scope) (a : Letter) : Option Value :=
  match scope.locals.lookup a.text with
  | some v => some v
  | none => scope.globals.lookup a.text

end Scope

namespace Layout

/-- Add the values given by keyword to those that letters already have. -/
def addKeywords (l : Layout) :
    List (Letter × Value) → List (Value × Value) → Except Error (List (Letter × Value))
  | bound, [] => .ok bound
  | bound, (keyword, value) :: rest =>
    match l.key? keyword with
    | none => .error (.unknownKeyword l.template.text keyword)
    | some a =>
      match bound.lookup a with
      | some _ => .error (.boundTwice a)
      | none => l.addKeywords (bound ++ [(a, value)]) rest

/-- The value of a letter, from those that are bound or else from the scope. -/
def resolve (l : Layout) (bound : List (Letter × Value)) (scope : Option Scope) (a : Letter) :
    Except Error Value :=
  match bound.lookup a with
  | some v => .ok v
  | none =>
    match scope.bind fun scope => scope.find? a with
    | some v => .ok v
    | none =>
      .error (.diagnostic ⟨.unboundField a, l.template.text, some ((l.origin? a).getD 0)⟩)

def bind (l : Layout) (values : List Value) (keywords : List (Value × Value))
    (scope : Option Scope) : Except Error (List Value) := do
  let names := l.names
  if names.length < values.length then
    .error (.tooManyValues l.template.text names.length values.length)
  else
    let bound ← l.addKeywords (names.zip values) keywords
    names.mapM (l.resolve bound scope)

end Layout

end BitTemplate
