import BitTemplate.Operation.Basic

/-!
What determines an operation: the text of its templates, the settings, and the engine. Settings
are checked when a key is read, templates only when the operation is made.
-/
namespace BitTemplate

/-- The text of a template given as itself or as text. -/
def Template.keyText (v : Value) (base : Base) : Except Error String :=
  match v with
  | .template _ => (Template.ofValue v (.base base)).map Template.text
  | .text s => .ok s
  | v => .error (.notAText v)

structure ExtractionKey where
  text : String
  base : Base
  precision : Precision
  minimum : Option Shape
  named : Bool
  engine : Engine
  deriving DecidableEq

namespace ExtractionKey

def read (template minimum : Value) (base : Base) (precision : Precision) (named : Bool)
    (fallback : Option String) : Except Error ExtractionKey := do
  let text ← Template.keyText template base
  let minimum ← Shape.least minimum (.precision precision)
  let engine ← Engine.select .none fallback
  return ⟨text, base, precision, minimum, named, engine⟩

def make (k : ExtractionKey) : Except Error Extraction :=
  Extraction.make
    { template := .text k.text
      base := .base k.base
      precision := .precision k.precision
      minimum := (k.minimum.map Value.shape).getD .none
      named := .bool k.named
      engine := .text k.engine.name } none

end ExtractionKey

structure StorageKey where
  text : String
  base : Base
  overflow : Overflow
  engine : Engine
  deriving DecidableEq

namespace StorageKey

def read (template overflow : Value) (base : Base) (fallback : Option String) :
    Except Error StorageKey := do
  let text ← Template.keyText template base
  let overflow ← Overflow.ofValue overflow
  let engine ← Engine.select .none fallback
  return ⟨text, base, overflow, engine⟩

def settings (k : StorageKey) : StorageSettings where
  template := .text k.text
  base := .base k.base
  overflow := .overflow k.overflow
  engine := .text k.engine.name

def makeCombination (k : StorageKey) : Except Error Combination :=
  Combination.make k.settings none

def makeReplacement (k : StorageKey) : Except Error Replacement :=
  Replacement.make k.settings none

end StorageKey

structure TransferKey where
  inputs : List String
  output : String
  base : Base
  overflow : Overflow
  engine : Engine
  deriving DecidableEq

namespace TransferKey

def read (inputs : List Value) (output overflow : Value) (base : Base)
    (fallback : Option String) : Except Error TransferKey := do
  let inputs ← inputs.mapM fun v => Template.keyText v base
  let output ← Template.keyText output base
  let overflow ← Overflow.ofValue overflow
  let engine ← Engine.select .none fallback
  return ⟨inputs, output, base, overflow, engine⟩

def make (k : TransferKey) : Except Error Transfer :=
  Transfer.make
    { inputs := .list (k.inputs.map Value.text)
      output := .text k.output
      base := .base k.base
      overflow := .overflow k.overflow
      engine := .text k.engine.name } none

end TransferKey

end BitTemplate
