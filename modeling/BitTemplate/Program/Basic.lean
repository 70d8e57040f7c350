import BitTemplate.Error

/-!
The code that an operation compiles to. A function takes its parameters, refuses or lowers the
values that do not fit, assigns variables, and returns expressions. Every constant is written
with a width that it fits. Terms are masks and shifts of variables; an expression is a union of
terms, such a union cut to a width, or a test whether some masked bit is set.
-/
namespace BitTemplate.Program

inductive Name where
  | value
  | target
  | letter (a : Letter)
  | input (index : Nat)
  | saturated (index : Nat)
  deriving DecidableEq

/-- A number written in the hexadecimal digits of a width. -/
structure Constant where
  value : Nat
  width : Nat
  fits : value < 1 <<< width

namespace Constant

def ofNat (value width : Nat) : Except Error Constant :=
  if h : value < 1 <<< width then .ok ⟨value, width, h⟩ else .error (.doesNotFit value width)

def full (width : Nat) : Constant where
  value := Bits.ones width
  width := width
  fits := Bits.ones_lt width

end Constant

inductive Term where
  | name (x : Name)
  | constant (c : Constant)
  | mask (t : Term) (c : Constant)
  | left (t : Term) (distance : Nat)
  | right (t : Term) (distance : Nat)

inductive Expr where
  /-- The union of some terms, which is zero if there are none. -/
  | union (terms : List Term)
  /-- The union of some terms, cut to the bits of a constant. -/
  | bounded (terms : List Term) (c : Constant)
  /-- Whether a variable has a bit of a constant. -/
  | test (x : Name) (c : Constant)

inductive Step where
  /-- Refuse a value above the limit of a field. -/
  | refuse (x : Name) (field : Letter) (limit : Constant)
  /-- Assign a value, lowered to a limit. -/
  | clamp (x source : Name) (limit : Constant)
  /-- Assign the value of an expression. -/
  | assign (x : Name) (e : Expr)

inductive Return where
  | value (e : Expr)
  | tuple (items : List Expr)
  | record (name : String) (items : List Expr)

structure Function where
  name : String
  params : List Name
  steps : List Step
  result : Return

end BitTemplate.Program
