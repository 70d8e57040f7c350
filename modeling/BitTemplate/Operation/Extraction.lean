import BitTemplate.Directive
import BitTemplate.Operation.Engine
import BitTemplate.Program.Generation
import BitTemplate.Shape.Choice

/-!
Extraction takes the fields of a template out of an integer. Each field gets a shape, and the
values are given as a tuple or, with the letters of the fields, as a record. A template without
fields is allowed, but worth a warning.
-/
namespace BitTemplate

structure Extraction where
  executor : Executor
  layout : Layout
  shaped : List (Field × Shape)
  named : Bool

namespace Extraction

structure Settings where
  template : Value
  base : Value := .base .binary
  precision : Value := .precision .standard
  minimum : Value := .none
  named : Value := .bool true
  engine : Value := .none

/-- Make an extraction. The template is read before the settings of its shapes. -/
def make (s : Settings) (fallback : Option String) : Except Error Extraction := do
  let engine ← Engine.select s.engine fallback
  let template ← Template.ofValue s.template s.base
  (template.forbidLiterals "an extraction template" "").mapError .diagnostic
  let layout : Layout := ⟨template⟩
  let precision ← Precision.ofValue s.precision
  let minimum ← Shape.least s.minimum (.precision precision)
  let shaped ← layout.shaped precision minimum
  let executor ← Executor.prepare engine (Program.extraction "run" none layout.width shaped)
  return ⟨executor, layout, shaped, s.named.isTrue⟩

def names (x : Extraction) : List Letter := x.layout.names

def function (x : Extraction) (name : String) (record : Option String) :
    Except Error Program.Function :=
  Program.extraction name record x.layout.width x.shaped

def interpret (x : Extraction) (value : Int) : List Value :=
  x.shaped.map fun pair => pair.2.fromBits (.int (pair.1.extract value))

/-- The values of the fields, by whichever engine is ready. -/
def values (x : Extraction) (value : Value) : Except Error Outcome :=
  match x.executor with
  | .compiled f => f.run [value]
  | .interpreted => do return .tuple (x.interpret (← value.integer))

/-- Give the items of a tuple the letters of the fields. -/
def label (x : Extraction) : Outcome → Outcome
  | .tuple items => if x.named then .record (x.names.zip items) else .tuple items
  | other => other

def run (x : Extraction) (value : Value) : Except Error Outcome :=
  (x.values value).map x.label

def warningName : String := "FieldlessTemplate"

/-- The warning about a template without fields, unless the first line of the caller's file
switches it off. -/
def warning? (x : Extraction) (firstLine : String) : Option String :=
  if x.names.isEmpty && (Directive.switch? firstLine warningName).getD true then
    some ("Template " ++ Text.quote x.layout.template.text ++
      " has no fields; nothing will be extracted")
  else none

end Extraction

end BitTemplate
