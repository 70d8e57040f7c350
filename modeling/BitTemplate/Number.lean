import BitTemplate.Value.Reading

/-!
Arithmetic on numbers that callers pass: logarithms, masks, and digit strings of a fixed width.
Negative numbers and numbers that do not fit are refused.
-/
namespace BitTemplate.Number

/-- The logarithm of the least power of two that is not below a number. -/
def ceilLog2 (n : Value) : Except Error Nat := do
  let n ← n.integer
  if n < 0 then .error (.negative n) else .ok (Bits.ceilLog2 n.toNat)

def mask (width offset : Value) : Except Error Nat := do
  let width ← width.integer
  let offset ← offset.integer
  if width < 0 then .error (.negativeWidth width)
  else if offset < 0 then .error (.negativeOffset offset)
  else .ok (Bits.mask width.toNat offset.toNat)

/-- A number together with a width that it fits. -/
def fitting (n width : Value) : Except Error (Nat × Nat) := do
  let n ← n.integer
  let width ← width.integer
  if width < 0 then .error .negativeShift
  else if 0 ≤ n ∧ n.toNat < 1 <<< width.toNat then .ok (n.toNat, width.toNat)
  else .error (.doesNotFit n width)

def binary (n width : Value) : Except Error String :=
  (fitting n width).map fun fit => Text.fixedBinary fit.1 fit.2

def hex (n width : Value) : Except Error String :=
  (fitting n width).map fun fit => Text.fixedHex fit.1 fit.2

end BitTemplate.Number
