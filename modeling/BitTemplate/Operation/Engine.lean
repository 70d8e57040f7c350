import BitTemplate.Program.Meaning

/-!
An operation is carried out by one of two engines: by running the code that was generated for
it, or by moving the bits of its fields directly. The engine is chosen by a setting, or else by
a variable of the environment, or else it runs generated code.
-/
namespace BitTemplate

inductive Engine where
  | compiled
  | interpreted
  deriving DecidableEq

namespace Engine

def name : Engine → String
  | .compiled => "compiled"
  | .interpreted => "interpreted"

def ofName? (name : String) : Option Engine :=
  if name = Engine.compiled.name then some .compiled
  else if name = Engine.interpreted.name then some .interpreted
  else none

/-- The engine for a setting, or for the variable of the environment if nothing is set. -/
def select (setting : Value) (fallback : Option String) : Except Error Engine :=
  match setting with
  | .none =>
    let name := fallback.getD Engine.compiled.name
    match ofName? name with
    | some engine => .ok engine
    | none => .error (.unknownEngineVariable name)
  | .text name =>
    match ofName? name with
    | some engine => .ok engine
    | none => .error (.unknownEngine setting)
  | v => .error (.unknownEngine v)

end Engine

inductive Executor where
  | compiled (f : Program.Function)
  | interpreted

namespace Executor

def engine : Executor → Engine
  | .compiled _ => .compiled
  | .interpreted => .interpreted

/-- Make an engine ready; code is only generated where it is run. -/
def prepare (engine : Engine) (code : Except Error Program.Function) : Except Error Executor :=
  match engine with
  | .compiled => code.map .compiled
  | .interpreted => .ok .interpreted

end Executor

end BitTemplate
