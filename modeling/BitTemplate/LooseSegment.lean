import BitTemplate.Capacity.Basic
import BitTemplate.Segment

/-!
A segment whose bounds were never checked. Its bounds may be any values, so each of its
properties may fail for itself: a mask needs a length and an offset that are not negative, and a
shift needs two integers.
-/
namespace BitTemplate

structure LooseSegment where
  offset : Value
  length : Value
  valueOffset : Value

namespace LooseSegment

def ofSegment (s : Segment) : LooseSegment := ⟨.int s.offset, .int s.length, .int s.valueOffset⟩

def shift (s : LooseSegment) : Except Error Int := do
  let offset ← s.offset.operand
  let valueOffset ← s.valueOffset.operand
  return offset - valueOffset

def mask (s : LooseSegment) : Except Error Nat := Capacity.mask s.length s.offset

def valueMask (s : LooseSegment) : Except Error Nat := Capacity.mask s.length s.valueOffset

/-- The bits of the segment that would lie below the field value. Neither way moves them. -/
def hidden (valueOffset : Int) : Nat := (-valueOffset).toNat

/-- Mask a value first, then move it to its place in the field. -/
def extract (s : LooseSegment) (value : Value) : Except Error Int := do
  let (length, offset) ← Capacity.bounds s.length s.offset
  let value ← value.operand
  let shift ← s.shift
  let valueOffset := offset - shift
  let start := offset + hidden valueOffset
  let count := length - hidden valueOffset
  let bits := Capacity.window value start count
  if bits ≠ 0 ∧ shift < 0 then
    Capacity.checkShift (offset + Capacity.windowLength value start count) (-shift).toNat
  return Capacity.moveLeft bits valueOffset.toNat

/-- Move a value to its place in the template first, then mask it. -/
def deposit (s : LooseSegment) (value : Value) : Except Error Int := do
  let shift ← s.shift
  let value ← value.operand
  Capacity.checkMove value shift
  let (length, offset) ← Capacity.bounds s.length s.offset
  let valueOffset := offset - shift
  let bits := Capacity.window value valueOffset.toNat (length - hidden valueOffset)
  return Capacity.moveLeft bits (offset + hidden valueOffset)

end LooseSegment

end BitTemplate
