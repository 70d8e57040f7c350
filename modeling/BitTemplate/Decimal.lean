import BitTemplate.Text.Digits

/-!
Decimal fractions that are not negative: a coefficient times a power of ten. They are written in
positional notation as long as the point stands within sixteen digits of the first one and not
more than four places before it, and with an exponent otherwise.
-/
namespace BitTemplate

structure Decimal where
  coefficient : Nat
  exponent : Int

namespace Decimal

def length (x : Decimal) : Nat := (Nat.toDigits 10 x.coefficient).length

/-- The place of the decimal point, counted from the first digit. -/
def point (x : Decimal) : Int := x.length + x.exponent

def shiftOf (places : Nat) : Nat := Nat.pow 10 places

/-- The coefficient's digits without the zeros at their end, and the place of the point. -/
def digits (x : Decimal) : List Char × Int :=
  if x.coefficient = 0 then (['0'], 1)
  else (((Nat.toDigits 10 x.coefficient).reverse.dropWhile (· == '0')).reverse, x.point)

def positional (ds : List Char) (point : Int) : List Char :=
  if point ≤ 0 then '0' :: '.' :: List.replicate (-point).toNat '0' ++ ds
  else if ds.length ≤ point.toNat then
    ds ++ List.replicate (point.toNat - ds.length) '0' ++ ['.', '0']
  else ds.take point.toNat ++ '.' :: ds.drop point.toNat

/-- One digit, the others as a fraction, and the exponent in at least two digits. -/
def scientific (ds : List Char) (point : Int) : List Char :=
  let power := point - 1
  let shown := Nat.toDigits 10 power.natAbs
  ds.take 1 ++ (if ds.length ≤ 1 then [] else '.' :: ds.drop 1) ++
    'e' :: (if power < 0 then '-' else '+') ::
    (List.replicate (2 - shown.length) '0' ++ shown)

def text (x : Decimal) : String :=
  let (ds, point) := x.digits
  String.ofList
    (if -4 < point ∧ point ≤ 16 then positional ds point else scientific ds point)

def wholeOf? (ds : List Char) : Option Nat :=
  if ds ≠ [] ∧ ds.all Char.isDigit then some (Text.numberOf ds) else none

def exponentOf? : List Char → Option Int
  | [] => some 0
  | 'e' :: '-' :: ds => (wholeOf? ds).map fun n => -n
  | 'e' :: '+' :: ds => (wholeOf? ds).map fun n => n
  | 'e' :: ds => (wholeOf? ds).map fun n => n
  | _ => none

/-- The decimal that a text writes: digits with a point among them, and an exponent. Only some
digits have to be there. -/
def ofChars? (cs : List Char) : Option Decimal :=
  let whole := cs.takeWhile Char.isDigit
  let (fraction, rest) :=
    match cs.dropWhile Char.isDigit with
    | '.' :: rest => (rest.takeWhile Char.isDigit, rest.dropWhile Char.isDigit)
    | rest => ([], rest)
  match wholeOf? (whole ++ fraction), exponentOf? rest with
  | some n, some e => some ⟨n, e - fraction.length⟩
  | _, _ => none

end Decimal

end BitTemplate
