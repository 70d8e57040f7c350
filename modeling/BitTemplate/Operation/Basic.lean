import BitTemplate.Operation.Extraction
import BitTemplate.Operation.Transfer
import BitTemplate.Program.Text

/-!
The four operations side by side: each can be written as a function of a given name, and its
source is the text of that function under the name `run`.
-/
namespace BitTemplate

inductive Operation where
  | extraction (x : Extraction)
  | combination (c : Combination)
  | replacement (r : Replacement)
  | transfer (t : Transfer)

namespace Operation

def executor : Operation → Executor
  | .extraction x => x.executor
  | .combination c => c.executor
  | .replacement r => r.executor
  | .transfer t => t.executor

def engine (op : Operation) : Engine := op.executor.engine

/-- The code of an operation as a function of the given name. A record applies to an extraction
only. -/
def function (op : Operation) (name : String) (record : Option String) :
    Except Error Program.Function :=
  match op with
  | .extraction x => x.function name record
  | .combination c => Program.combination name c.layout c.slots
  | .replacement r => Program.replacement name r.layout r.slots
  | .transfer t => Program.transfer name t.inputs.length t.output t.slots

def source (op : Operation) : Except Error String :=
  (op.function "run" none).map Program.Function.text

/-- The code that is kept for inspection while an operation is made ready: none, unless it is
asked for and there is code to run. -/
def kept (op : Operation) (setting : String) : List String :=
  match op.executor with
  | .compiled f => if setting.isEmpty then [] else [f.text]
  | .interpreted => []

def warning? (op : Operation) (firstLine : String) : Option String :=
  match op with
  | .extraction x => x.warning? firstLine
  | _ => none

end Operation

end BitTemplate
