import BitTemplate.Capacity.Basic

/-!
A diagnostic whose parts were never checked. The sentence has to be a text for it to be shown,
the template anything that consists of texts, and the place an integer.
-/
namespace BitTemplate

structure LooseDiagnostic where
  sentence : Value
  text : Value
  place : Value

namespace LooseDiagnostic

/-- A piece of the template as it is shown: one that is blank is a plain space. -/
def piece : Value → Except Error String
  | .text s => .ok (if s ≠ "" ∧ s.toList.all Text.isBlank then " " else s)
  | _ => .error .missingAttribute

def line (text : Value) : Except Error String := do
  match text.items? with
  | none => .error .wrongKind
  | some items => return String.join (← items.mapM piece)

def index (place : Value) : Except Error (Option Int) := do
  match place with
  | .none => return none
  | place =>
    let n ← place.integer
    Capacity.checkPlace n
    return some n

def words (sentence : Value) : Except Error String :=
  match sentence with
  | .text s => .ok s
  | _ => .error .wrongKind

/-- The diagnostic as text. Without a template it is the sentence alone. -/
def render (d : LooseDiagnostic) : Except Error String := do
  match d.text with
  | .none => words d.sentence
  | text =>
    let line ← line text
    let index ← index d.place
    return Diagnostic.render (← words d.sentence) line index

end LooseDiagnostic

end BitTemplate
