import BitTemplate.LooseSegment
import BitTemplate.Program.Generation

/-!
Fields in templates of a width that callers choose. A field may lie so far from the end of its
template that its mask cannot be written or held.
-/
namespace BitTemplate.Capacity

def fieldMask (f : Field) : Except Error Nat := do
  let masks ← f.segments.mapM fun s => (LooseSegment.ofSegment s).mask
  return masks.foldl (· ||| ·) 0

/-- The bits of a value that do not fit a field, placed above it. -/
def spill (f : Field) (value : Value) : Except Error Int := do
  let value ← value.operand
  let excess := value >>> f.width
  checkMove excess f.spillOffset
  return moveLeft excess f.spillOffset

def store (s : Slot) (value : Value) : Except Error Int := do
  let value ← value.integer
  let value ←
    if s.checked then s.overflow.adapt (.ofLetter s.name) (.int s.width) s.width value
    else pure value
  let parts ← s.field.segments.mapM fun part => (LooseSegment.ofSegment part).deposit (.int value)
  let bits := Bits.union parts
  if s.spills then return Bits.lor bits (← spill s.field (.int value)) else return bits

/-- Refuse a segment whose mask does not fit the width that numbers are to be written in. -/
def checkConstant (width : Value) (s : Segment) : Except Error Unit := do
  let mask ← (LooseSegment.ofSegment s).mask
  let width ← Capacity.width width
  if width < s.offset + s.length then .error (.doesNotFit mask width)

def extract (width : Value) (f : Field) (source : Program.Name) (shape : Option Shape) :
    Except Error Program.Expr := do
  f.segments.forM (checkConstant width)
  Program.extract (← Capacity.width width) f source shape

def deposit (width : Value) (s : Slot) (source : Program.Name) :
    Except Error (List Program.Term) := do
  s.field.segments.forM (checkConstant width)
  Program.deposit (← Capacity.width width) s source

end BitTemplate.Capacity
