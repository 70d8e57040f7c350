import BitTemplate.Number
import BitTemplate.Storage

/-!
Numbers are held in memory, in words of a fixed number of bits. There is a limit to the words
that one can have, a lower one to what fits into memory, and a still lower one to the digits
that are written. What makes numbers of a length that callers choose is put under these limits
here. Nothing else about it changes, and other errors come first.

Nothing is built that cannot be written. A number that is moved beyond a certain distance is too
long for that, unless it is zero, and so all distances beyond it are taken for the same one.
-/
namespace BitTemplate.Capacity

def wordBits : Nat := 30

def wordLimit : Nat := 2305843009213693945

def memoryLimit : Nat := 1 <<< 36

/-- Distances from here on are not told apart. A number that is moved so far to the left cannot
be written, and nothing is left of one that is moved so far to the right. -/
def reach : Nat := 1 <<< 20

def words (bits : Nat) : Nat := (bits + (wordBits - 1)) / wordBits

/-- Refuse to move a number of the given length to the left by a distance if it gets too long. -/
def checkShift (length distance : Nat) : Except Error Unit :=
  if wordLimit < words length + words distance then .error .tooManyBits
  else if memoryLimit ≤ length + distance then .error .outOfMemory
  else .ok ()

/-- What fits into memory has no more words than a number can have. -/
theorem checkShift_eq_ok {length distance : Nat} (h : length + distance < memoryLimit) :
    checkShift length distance = .ok () := by
  have hmemory : memoryLimit = 68719476736 := rfl
  have hwords : words length + words distance ≤ wordLimit := by
    unfold words wordBits wordLimit
    omega
  rw [checkShift, if_neg (by omega), if_neg (by omega)]

/-- Refuse to move a number by a distance, to the left if that is positive. Zero can be moved
anywhere, and to the right everything can. -/
def checkMove (n distance : Int) : Except Error Unit :=
  if n = 0 ∨ distance < 0 then .ok ()
  else checkShift (Bits.bitLength n.natAbs) distance.toNat

def moveLeft (n : Int) (distance : Nat) : Int := n <<< min distance reach

def window (n : Int) (start length : Nat) : Int :=
  Bits.land (n >>> min start reach) (Bits.ones (min length reach))

/-- The length of a window as a number. A negative number fills every window that reaches beyond
its own bits. -/
def windowLength (n : Int) (start length : Nat) : Nat :=
  if n < 0 ∧ reach < length then length else Bits.bitLength (window n start length).toNat

/-- Refuse a number with so many bits set from a bit on. It is made by moving a single bit
first, and then what is below it. -/
def checkMask (width offset : Nat) : Except Error Unit := do
  checkShift 1 width
  if 0 < width then checkShift width offset

def maskOf (width offset : Nat) : Nat := Bits.mask (min width reach) (min offset reach)

def bounds (width offset : Value) : Except Error (Nat × Nat) := do
  let width ← width.integer
  let offset ← offset.integer
  if width < 0 then .error (.negativeWidth width)
  else if offset < 0 then .error (.negativeOffset offset)
  else
    checkMask width.toNat offset.toNat
    return (width.toNat, offset.toNat)

def mask (width offset : Value) : Except Error Nat :=
  (bounds width offset).map fun bounds => maskOf bounds.1 bounds.2

def writable (n : Int) : Except Error Int :=
  if Text.isLong n then .error .longNumeral else .ok n

def width (v : Value) : Except Error Nat := do
  match ← v.integer with
  | .ofNat width =>
    checkShift 1 width
    return width
  | .negSucc _ => .error .negativeShift

def binary (n width : Value) : Except Error String := do
  let _ ← n.integer
  let _ ← Capacity.width width
  Number.binary n width

def hex (n width : Value) : Except Error String := do
  let _ ← n.integer
  let _ ← Capacity.width width
  Number.hex n width

/-- A width that may be any value, or the least one that is not told apart from it. -/
def near (width : Value) : Value :=
  match width.index? with
  | some n => if reach < n.toNat then .int reach else width
  | none => width

def adapt (value width policy name : Value) : Except Error Int := do
  let _ ← value.integer
  let _ ← Overflow.ofValue policy
  let _ ← bounds width (.int 0)
  Overflow.adaptValue value (near width) policy name

/-- Places in a text are counted up to this limit, and down to its negative. -/
def placeLimit : Nat := 1 <<< 63

def textLimit : Nat := 1 <<< 30

/-- Refuse a place that a text cannot be filled up to. Nothing is filled up to a place before
the text. -/
def checkPlace (n : Int) : Except Error Unit :=
  if n < -(placeLimit : Int) ∨ (placeLimit : Int) ≤ n then .error .tooManyBits
  else if (textLimit : Int) ≤ n then .error .outOfMemory
  else .ok ()

end BitTemplate.Capacity
