import BitTemplate.Operation.Binding
import BitTemplate.Value.Same

/-!
Arranging values in the order of fields where nothing was checked. What is given by position,
what is given by keyword and the variables of the caller may be any values, and each is asked
for what it may lack only when it is needed.
-/
namespace BitTemplate

/-- The variables of a caller, which may be any values. -/
structure LooseScope where
  locals : Value := .dict []
  globals : Value := .dict []

namespace LooseScope

/-- The variable that a letter names among others. A text or a list may contain the letter, but
has no variables. -/
def findIn (a : Letter) : Value → Except Error (Option Value)
  | .dict entries =>
    .ok ((entries.find? fun entry => entry.1.same (.ofLetter a)).map Prod.snd)
  | .layout l => .ok ((l.fields.find? fun f => f.name == a).map fun f => .field (.ofField f))
  | .list items => if items.any (Value.same (.ofLetter a)) then .error .wrongKind else .ok none
  | .text s => if s.toList.contains a.char then .error .wrongKind else .ok none
  | _ => .error .wrongKind

def find (scope : LooseScope) (a : Letter) : Except Error (Option Value) := do
  match ← findIn a scope.locals with
  | some v => return some v
  | none => findIn a scope.globals

end LooseScope

namespace Layout

/-- The value of a letter, from those that are bound or else from the scope. -/
def looseResolve (l : Layout) (bound : List (Letter × Value)) (scope : Option LooseScope)
    (a : Letter) : Except Error Value := do
  match bound.lookup a, scope with
  | none, some scope =>
    match ← scope.find a with
    | some v => return v
    | none => l.resolve bound none a
  | _, _ => l.resolve bound none a

/-- The number of items that a value has. A template has a length, but no items. -/
def looseCount (values : Value) : Except Error Nat :=
  match values.items?, values with
  | some items, _ => .ok items.length
  | none, .template t => .ok t.width
  | none, _ => .error .wrongKind

def looseBind (l : Layout) (values keywords : Value) (scope : Option LooseScope) :
    Except Error (List Value) := do
  let names := l.names
  let count ← looseCount values
  if names.length < count then .error (.tooManyValues l.template.text names.length count)
  else
    match values.items?, keywords.entries? with
    | none, _ => .error .wrongKind
    | _, none => .error .missingAttribute
    | some items, some entries =>
      let bound ← l.addKeywords (names.zip items) entries
      names.mapM (l.looseResolve bound scope)

end Layout

end BitTemplate
