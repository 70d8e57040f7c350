import BitTemplate.Value.Reading

/-!
How a field gets its shape. One bit is boolean, unless a least shape asks for more; other widths
are rounded up to a standard one or kept exact, and are never below the least shape. With
standard precision the least shape has to be standard too.
-/
namespace BitTemplate

namespace Shape

def ofWidth (n : Int) : Except Error Shape :=
  match unsigned? n with
  | some s => .ok s
  | none => .error (.shapeWidthRange n)

/-- A truth value is not taken for a width. -/
def ofWidthValue : Value → Except Error Shape
  | .int n => ofWidth n
  | v => .error (.shapeWidthKind v)

def declare (width boolean : Value) : Except Error Shape :=
  match width with
  | .int n =>
    match ofWidth n with
    | .error e => .error e
    | .ok s =>
      if boolean.isTrue then
        if n = 1 then .ok .boolean else .error (.booleanWidth n)
      else .ok s
  | v => .error (.shapeWidthKind v)

/-- Digits that do not start with a zero. -/
def isWidthNumeral : List Char → Bool
  | [] => false
  | c :: cs => c != '0' && (c :: cs).all Char.isDigit

def widthNumeral? (name : String) : Option (List Char) :=
  match name.toList with
  | 'u' :: digits => if isWidthNumeral digits then some digits else none
  | _ => none

def ofWidthNumeral (digits : List Char) : Except Error Shape :=
  if digits.length ≤ Text.digitLimit then ofWidth (Text.numberOf digits)
  else .error .longNumeral

/-- A shape given as itself, as the type of truth values, as a width, or by its name. -/
def ofValue (v : Value) : Except Error Shape :=
  match v with
  | .shape s => .ok s
  | .type .bool => .ok .boolean
  | .int n => ofWidth n
  | .text name =>
    if name = "bool" then .ok .boolean
    else
      match widthNumeral? name with
      | some digits => ofWidthNumeral digits
      | none => .error (.notAShape v)
  | v => .error (.notAShape v)

def least (minimum : Value) (precision : Value) : Except Error (Option Shape) :=
  match minimum with
  | .none => .ok none
  | v =>
    match ofValue v with
    | .error e => .error e
    | .ok s =>
      match Precision.ofValue precision with
      | .error e => .error e
      | .ok .exact => .ok (some s)
      | .ok .standard => if s.isStandard then .ok (some s) else .error (.minimumNotStandard s)

/-- The narrowest standard width for a number of bits, or a wider power of two. -/
def standardWidth (n : Nat) : Nat := max 8 (1 <<< Bits.ceilLog2 n)

def floor? : Option Shape → Option Nat
  | some (.unsigned w _) => some w
  | _ => none

/-- The unsigned shape of a field with the given number of bits. -/
def forBits (width : Int) (precision : Precision) (minimum : Option Shape) :
    Except Error Shape :=
  let raise (n : Int) : Int :=
    match floor? minimum with
    | some w => max n w
    | none => n
  match precision with
  | .exact => ofWidth (raise width)
  | .standard =>
    if width < 0 then .error (.negative width)
    else ofWidth (raise (standardWidth width.toNat))

def forField (width : Int) (precision : Precision) (minimum : Option Shape) :
    Except Error Shape :=
  if width = 1 ∧ (floor? minimum).isNone then .ok .boolean else forBits width precision minimum

/-- The larger of a value and a least width. The value is kept where they are equal. -/
def raised (v : Value) : Option Nat → Except Error Value
  | none => .ok v
  | some w =>
    if !v.isNumber then .error .wrongKind
    else if v.compareInt? w = some .lt then .ok (.int w)
    else .ok v

/-- The shape of a field whose number of bits may be any value. One that only stands for the
number one does not equal it, and gets an unsigned shape. -/
def forValue (width precision minimum : Value) : Except Error Shape :=
  match Precision.ofValue precision with
  | .error e => .error e
  | .ok p =>
    match least minimum (.precision p) with
    | .error e => .error e
    | .ok m =>
      match width with
      | .int n => forField n p m
      | v =>
        if v.equalsInt 1 ∧ (floor? m).isNone then .ok .boolean
        else
          match p with
          | .exact =>
            match raised v (floor? m) with
            | .error e => .error e
            | .ok w => ofWidthValue w
          | .standard =>
            match v.integer with
            | .error e => .error e
            | .ok n => forBits n p m

def fromBits (s : Shape) (bits : Value) : Value :=
  match s with
  | .boolean => .bool bits.isTrue
  | .unsigned _ _ => bits

end Shape

namespace Field

def shape (f : Field) (precision minimum : Value) : Except Error Shape :=
  Shape.forValue (.int f.width) precision minimum

end Field

namespace Layout

def shaped (l : Layout) (precision : Precision) (minimum : Option Shape) :
    Except Error (List (Field × Shape)) :=
  l.fields.mapM fun f => (Shape.forField f.width precision minimum).map fun s => (f, s)

def shapes (l : Layout) (precision minimum : Value) : Except Error (List (Field × Shape)) :=
  l.fields.mapM fun f => (f.shape precision minimum).map fun s => (f, s)

end Layout

end BitTemplate
