import BitTemplate.Operation.Binding
import BitTemplate.Operation.Engine
import BitTemplate.Program.Generation
import BitTemplate.Storage
import BitTemplate.Value.Same

/-!
Combination assembles an integer from the values of the fields of a template and its literals.
Replacement does the same over a target, whose bits it keeps at the placeholders.
-/
namespace BitTemplate

/-- What a combination or a replacement is made of. -/
structure StorageSettings where
  template : Value
  base : Value := .base .binary
  overflow : Value := .overflow .truncate
  widths : Value := .none
  engine : Value := .none

namespace Layout

/-- Refuse the first key that names no field. -/
def checkKeys (l : Layout) : List Value → Except Error Unit
  | [] => .ok ()
  | key :: rest =>
    match l.key? key with
    | some _ => l.checkKeys rest
    | none => .error (.widthOfUnknownField key l.template.text)

def readWidths (l : Layout) (widths : Value) : Except Error (List (Value × Value)) :=
  match widths with
  | .none => .ok []
  | v =>
    match v.entries? with
    | none => .error (.widthsKind v)
    | some entries => do
      l.checkKeys (entries.map Prod.fst)
      return entries

def makeSlots (l : Layout) (overflow widths : Value) : Except Error (List Slot) := do
  let policy ← Overflow.ofValue overflow
  let widths ← l.readWidths widths
  l.fields.mapM fun f =>
    Slot.make f (.overflow policy) ((Value.entry? f.name.text widths).getD .none)

/-- The integer that stores values in their slots, beside the literals. -/
def combine (l : Layout) (slots : List Slot) (values : List Value) : Except Error Int := do
  let stored ← (slots.zip values).mapM fun pair => pair.1.storeValue pair.2
  let all := stored.foldl Bits.lor (l.template.literalValue : Int)
  return Bits.land all (Bits.ones l.width)

/-- The integer that stores values in their slots and keeps a target at the placeholders. -/
def replace (l : Layout) (slots : List Slot) (target : Value) (values : List Value) :
    Except Error Int := do
  let kept := Bits.land (← target.integer) l.template.placeholderMask
  return Bits.lor kept (← l.combine slots values)

end Layout

/-- What a combination and a replacement have in common. -/
structure Depositing where
  executor : Executor
  layout : Layout
  slots : List Slot

/-- Make what stores values in a template. The cells that the template may have and the code that
is generated are left open. -/
def Depositing.make (accept : Template → Except Diagnostic Unit)
    (code : Layout → List Slot → Except Error Program.Function) (s : StorageSettings)
    (fallback : Option String) : Except Error Depositing := do
  let engine ← Engine.select s.engine fallback
  let template ← Template.ofValue s.template s.base
  (accept template).mapError .diagnostic
  let layout : Layout := ⟨template⟩
  let slots ← layout.makeSlots s.overflow s.widths
  let executor ← Executor.prepare engine (code layout slots)
  return ⟨executor, layout, slots⟩

structure Combination extends Depositing

namespace Combination

def accept (t : Template) : Except Diagnostic Unit :=
  t.forbidPlaceholders "a combination template" "; use literals instead"

def make (s : StorageSettings) (fallback : Option String) : Except Error Combination :=
  (Depositing.make accept (Program.combination "run") s fallback).map .mk

def run (c : Combination) (values : List Value) : Except Error Outcome :=
  match c.executor with
  | .compiled f => f.run values
  | .interpreted => do return .value (.int (← c.layout.combine c.slots values))

def call (c : Combination) (values : List Value) (keywords : List (Value × Value)) :
    Except Error Outcome := do
  c.run (← c.layout.bind values keywords none)

end Combination

structure Replacement extends Depositing

namespace Replacement

/-- Every template may be stored over a target. -/
def accept (_ : Template) : Except Diagnostic Unit := .ok ()

def make (s : StorageSettings) (fallback : Option String) : Except Error Replacement :=
  (Depositing.make accept (Program.replacement "run") s fallback).map .mk

def run (r : Replacement) (target : Value) (values : List Value) : Except Error Outcome :=
  match r.executor with
  | .compiled f => f.run (target :: values)
  | .interpreted => do return .value (.int (← r.layout.replace r.slots target values))

def call (r : Replacement) (target : Value) (values : List Value)
    (keywords : List (Value × Value)) : Except Error Outcome := do
  r.run target (← r.layout.bind values keywords none)

end Replacement

end BitTemplate
