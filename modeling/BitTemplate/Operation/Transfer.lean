import BitTemplate.Operation.Combination

/-!
A transfer extracts the fields of several integers and combines them into one. Each letter may
be produced by only one input template, and each letter of the output template has to be. The
policy applies to fields that are wider in their input than in the output.
-/
namespace BitTemplate

structure Transfer where
  executor : Executor
  inputs : List Layout
  output : Layout
  slots : List (Slot × Program.Source)

namespace Transfer

structure Settings where
  inputs : Value
  output : Value
  base : Value := .base .binary
  overflow : Value := .overflow .truncate
  engine : Value := .none

/-- The input templates: one alone, or several. -/
def inputValues (inputs : Value) : Except Error (List Value) :=
  match inputs with
  | .text _ => .ok [inputs]
  | .template _ => .ok [inputs]
  | v =>
    match v.items? with
    | some items => .ok items
    | none => .error .wrongKind

/-- The layout of an input template, which may not fix any bits. -/
def readInput (base v : Value) : Except Error Layout := do
  let template ← Template.ofValue v base
  (template.forbidLiterals "an input template" "").mapError .diagnostic
  return ⟨template⟩

def source? (sources : List Program.Source) (a : Letter) : Option Program.Source :=
  sources.find? fun source => source.field.name == a

/-- Add the fields of the input with the given index to the known sources. -/
def addFields (l : Layout) (index : Nat) :
    List Program.Source → List Field → Except Diagnostic (List Program.Source)
  | sources, [] => .ok sources
  | sources, f :: rest =>
    match source? sources f.name with
    | some earlier =>
      .error ⟨.duplicateField f.name earlier.index index, l.template.text,
        some ((l.origin? f.name).getD 0)⟩
    | none => addFields l index (sources ++ [⟨index, f⟩]) rest

/-- The sources of all letters, from the input with the given index on. -/
def gather : Nat → List Program.Source → List Layout → Except Diagnostic (List Program.Source)
  | _, sources, [] => .ok sources
  | index, sources, l :: rest =>
    match addFields l index sources l.fields with
    | .error d => .error d
    | .ok sources => gather (index + 1) sources rest

def link (output : Layout) (sources : List Program.Source) (policy : Overflow) (f : Field) :
    Except Diagnostic (Slot × Program.Source) :=
  match source? sources f.name with
  | some source => .ok (⟨f, policy, some (.int source.field.width)⟩, source)
  | none =>
    .error ⟨.unproducedField f.name, output.template.text,
      some ((output.origin? f.name).getD 0)⟩

def make (s : Settings) (fallback : Option String) : Except Error Transfer := do
  let engine ← Engine.select s.engine fallback
  let inputs ← (← inputValues s.inputs).mapM (readInput s.base)
  if inputs.isEmpty then .error .noInputs
  else
    let template ← Template.ofValue s.output s.base
    (template.forbidPlaceholders "an output template" "; use literals instead").mapError
      .diagnostic
    let output : Layout := ⟨template⟩
    let sources ← (gather 0 [] inputs).mapError .diagnostic
    let policy ← Overflow.ofValue s.overflow
    let slots ← (output.fields.mapM (link output sources policy)).mapError .diagnostic
    let executor ← Executor.prepare engine (Program.transfer "run" inputs.length output slots)
    return ⟨executor, inputs, output, slots⟩

/-- Extract the field of each slot from the integers of the inputs and store it. -/
def interpret (t : Transfer) (values : List Value) : Except Error Int := do
  let integers ← values.mapM Value.integer
  let fields := t.slots.map fun pair =>
    Value.int (pair.2.field.extract (integers[pair.2.index]?.getD 0))
  t.output.combine (t.slots.map Prod.fst) fields

def run (t : Transfer) (values : List Value) : Except Error Outcome :=
  if values.length ≠ t.inputs.length then
    .error (.valueCount t.inputs.length values.length)
  else
    match t.executor with
    | .compiled f => f.run values
    | .interpreted => do return .value (.int (← t.interpret values))

end Transfer

end BitTemplate
