import BitTemplate.Error
import BitTemplate.Template.Parse

/-!
Settings and templates read from the values that callers pass. A base may be given as the number
of its digits, a precision or a policy by its name, and a template by its text.
-/
namespace BitTemplate

namespace Value

/-- The integer that a value gives when it is asked for one. -/
def integer (v : Value) : Except Error Int :=
  match v.index? with
  | some n => .ok n
  | Option.none => .error .wrongKind

/-- The integer that a mask, a shift or a difference takes a value for. It does not ask for one,
so the value has to be an integer itself. -/
def operand (v : Value) : Except Error Int :=
  match v.toInt? with
  | some n => .ok n
  | Option.none => .error .wrongKind

end Value

namespace Base

def ofValue (v : Value) : Except Error Base :=
  match v with
  | .base b => .ok b
  | v =>
    if v.equalsInt 2 then .ok .binary
    else if v.equalsInt 16 then .ok .hexadecimal
    else .error .unknownSetting

end Base

namespace Precision

def ofValue : Value → Except Error Precision
  | .precision p => .ok p
  | .text s =>
    if s = Precision.standard.label then .ok .standard
    else if s = Precision.exact.label then .ok .exact
    else .error .unknownSetting
  | _ => .error .unknownSetting

end Precision

namespace Overflow

def all : List Overflow := [.truncate, .panic, .corrupt, .saturate]

def ofValue (v : Value) : Except Error Overflow :=
  match v with
  | .overflow p => .ok p
  | .text s =>
    match all.find? fun p => p.label == s with
    | some p => .ok p
    | none => .error (.unknownPolicy v)
  | v => .error (.unknownPolicy v)

end Overflow

namespace Template

def ofText (v base : Value) : Except Error Template :=
  match v with
  | .text s =>
    match Base.ofValue base with
    | .ok b => (parse s b).mapError .diagnostic
    | .error e => .error e
  | v => .error (.notAText v)

/-- A template as it is, if it has the given base, or the one that a text writes. -/
def ofValue (v base : Value) : Except Error Template :=
  match v with
  | .template t =>
    match Base.ofValue base with
    | .ok b => if t.base = b then .ok t else .error (.wrongBase t.text t.base b)
    | .error e => .error e
  | v => ofText v base

end Template

namespace Layout

def ofValue : Value → Except Error Layout
  | .template t => .ok ⟨t⟩
  | v => .error (.notATemplate v)

/-- The letter of a layout that a key names. -/
def key? (l : Layout) : Value → Option Letter
  | .text s =>
    match Letter.ofString? s with
    | some a => if l.names.contains a then some a else none
    | none => none
  | _ => none

def find (l : Layout) (key : Value) : Except Error Field :=
  match (l.key? key).bind l.field? with
  | some f => .ok f
  | none => .error .missingField

/-- The index of the template character where the field that a key names first occurs. -/
def originOf (l : Layout) (key : Value) : Except Error Nat :=
  match (l.key? key).bind l.origin? with
  | some index => .ok index
  | none => .error .missingField

end Layout

end BitTemplate
