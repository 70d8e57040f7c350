import BitTemplate.Program.Basic
import BitTemplate.Value.Reading

/-!
What a function computes. The steps run in order, then the returned expressions are evaluated.
A variable may hold any value; masks and shifts need an integer, comparisons a number, and neither
asks a value for the integer that it might give. What is never looked at is never checked.
-/
namespace BitTemplate

/-- What an operation gives: one value, a tuple, or a tuple with letters for its items. -/
inductive Outcome where
  | value (v : Value)
  | tuple (items : List Value)
  | record (fields : List (Letter × Value))

namespace Program

/-- The values of the variables. One that was never assigned holds nothing. -/
abbrev Env := Name → Value

namespace Env

def empty : Env := fun _ => .none

def set (env : Env) (x : Name) (v : Value) : Env := fun y => if y = x then v else env y

def ofArguments (params : List Name) (arguments : List Value) : Env :=
  (params.zip arguments).foldl (fun env pair => env.set pair.1 pair.2) empty

end Env

def Term.eval (env : Env) : Term → Except Error Int
  | .name x => (env x).operand
  | .constant c => .ok c.value
  | .mask t c => do return Bits.land (← t.eval env) c.value
  | .left t distance => do return (← t.eval env) <<< distance
  | .right t distance => do return (← t.eval env) >>> distance

def evalUnion (env : Env) (terms : List Term) : Except Error Int := do
  return Bits.union (← terms.mapM (Term.eval env))

def Expr.eval (env : Env) : Expr → Except Error Value
  | .union terms => do return .int (← evalUnion env terms)
  | .bounded terms c => do return .int (Bits.land (← evalUnion env terms) c.value)
  | .test x c => do return .bool (Bits.land (← (env x).operand) c.value != 0)

/-- Whether a number is above a limit. -/
def exceeds (v : Value) (limit : Nat) : Except Error Bool :=
  if v.isNumber then .ok (v.compareInt? limit == some .gt) else .error .wrongKind

/-- The error for a number above the limit of a field. -/
def excess (field : Letter) (v : Value) (width : Nat) : Error :=
  match v.toInt? with
  | some n => .excess (.ofLetter field) n (.int width)
  | none => .fractionalExcess

def Step.run (env : Env) : Step → Except Error Env
  | .refuse x field limit => do
    if ← exceeds (env x) limit.value then .error (excess field (env x) limit.width) else .ok env
  | .clamp x source limit => do
    if ← exceeds (env source) limit.value then .ok (env.set x (.int limit.value))
    else .ok (env.set x (env source))
  | .assign x e => do return env.set x (← e.eval env)

def Return.eval (env : Env) : Return → Except Error Outcome
  | .value e => do return .value (← e.eval env)
  | .tuple items => do return .tuple (← items.mapM (Expr.eval env))
  | .record _ items => do return .tuple (← items.mapM (Expr.eval env))

namespace Function

def run (f : Function) (arguments : List Value) : Except Error Outcome := do
  let env ← f.steps.foldlM Step.run (Env.ofArguments f.params arguments)
  f.result.eval env

end Function

end Program

end BitTemplate
