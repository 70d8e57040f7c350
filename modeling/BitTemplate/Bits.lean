/-!
Integers of either sign are read here as strings of bits that never end on the left: a
nonnegative integer has zeros all the way up, a negative one has ones. Intersection, union and
the two shifts act bit by bit on these strings, and two integers with the same bits are equal.
Bit 0 is the least significant one.
-/
namespace BitTemplate.Bits

def bit : Int → Nat → Bool
  | .ofNat n, i => n.testBit i
  | .negSucc n, i => !n.testBit i

/-- The natural number with the bits of `m` that `n` lacks. -/
def without (m n : Nat) : Nat := m ^^^ (m &&& n)

def land : Int → Int → Int
  | .ofNat m, .ofNat n => .ofNat (m &&& n)
  | .ofNat m, .negSucc n => .ofNat (without m n)
  | .negSucc m, .ofNat n => .ofNat (without n m)
  | .negSucc m, .negSucc n => .negSucc (m ||| n)

def lor : Int → Int → Int
  | .ofNat m, .ofNat n => .ofNat (m ||| n)
  | .ofNat m, .negSucc n => .negSucc (without n m)
  | .negSucc m, .ofNat n => .negSucc (without m n)
  | .negSucc m, .negSucc n => .negSucc (m &&& n)

def union (xs : List Int) : Int := xs.foldl lor 0

def ones (width : Nat) : Nat := (1 <<< width) - 1

/-- The number with `width` bits set, the lowest of which is bit `offset`. -/
def mask (width offset : Nat) : Nat := ones width <<< offset

/-- The number of digits of `n` in binary, where zero has none. -/
def bitLength (n : Nat) : Nat := if n = 0 then 0 else n.log2 + 1

/-- The logarithm of the least power of two that is not below `n`. -/
def ceilLog2 (n : Nat) : Nat := bitLength (n - 1)

/-- The low bits alone stay below the next bit. -/
theorem ones_lt (width : Nat) : ones width < 1 <<< width := by
  have h : 0 < 1 <<< width := by
    rw [Nat.one_shiftLeft]
    exact Nat.two_pow_pos width
  unfold ones
  omega

theorem testBit_without (m n i : Nat) :
    (without m n).testBit i = (m.testBit i && !n.testBit i) := by
  simp only [without, Nat.testBit_xor, Nat.testBit_and]
  cases m.testBit i <;> cases n.testBit i <;> rfl

@[simp] theorem bit_land (x y : Int) (i : Nat) : bit (land x y) i = (bit x i && bit y i) := by
  cases x <;> cases y <;>
    simp [bit, land, testBit_without, Nat.testBit_and, Nat.testBit_or, Bool.and_comm]

@[simp] theorem bit_lor (x y : Int) (i : Nat) : bit (lor x y) i = (bit x i || bit y i) := by
  cases x with
  | ofNat m =>
    cases y with
    | ofNat n => simp [bit, lor, Nat.testBit_or]
    | negSucc n => simp [bit, lor, testBit_without, Bool.or_comm]
  | negSucc m =>
    cases y with
    | ofNat n => simp [bit, lor, testBit_without]
    | negSucc n => simp [bit, lor, Nat.testBit_and]

@[simp] theorem bit_zero (i : Nat) : bit 0 i = false := by
  change (0 : Nat).testBit i = false
  simp

@[simp] theorem bit_natCast (n i : Nat) : bit (n : Int) i = n.testBit i := rfl

/-- A set bit of a mask lies in its window. -/
theorem testBit_mask (width offset i : Nat) :
    (mask width offset).testBit i = decide (offset ≤ i ∧ i < offset + width) := by
  simp only [mask, ones, Nat.one_shiftLeft, Nat.testBit_shiftLeft, Nat.testBit_two_pow_sub_one]
  by_cases h : offset ≤ i
  · simp only [ge_iff_le, h, decide_true, Bool.true_and, true_and, decide_eq_decide]
    omega
  · simp [h]

end BitTemplate.Bits
