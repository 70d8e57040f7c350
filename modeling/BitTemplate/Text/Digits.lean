import BitTemplate.Bits

/-!
Numbers as digit strings. A fixed number of digits in a radix is produced from the least
significant one upwards; a number that needs no more digits than that is shown in full, with
zeros in front.
-/
namespace BitTemplate.Text

/-- The digit for a value below sixteen, in lower case. -/
def digitChar (d : Nat) : Char :=
  if d < 10 then Char.ofNat (48 + d) else Char.ofNat (87 + d)

/-- The last `count` digits of `n` in a radix, most significant first, in front of a text. -/
def digitsBefore (radix : Nat) : Nat → Nat → List Char → List Char
  | 0, _, text => text
  | count + 1, n, text => digitsBefore radix count (n / radix) (digitChar (n % radix) :: text)

def lastDigits (radix count n : Nat) : List Char := digitsBefore radix count n []

def decimalNat (n : Nat) : String := String.ofList (Nat.toDigits 10 n)

/-- An integer in decimal, with a minus sign if it is negative. -/
def decimal : Int → String
  | .ofNat n => decimalNat n
  | .negSucc n => "-" ++ decimalNat (n + 1)

/-- The most digits of one number that are read or written in decimal. -/
def digitLimit : Nat := 4300

/-- Whether an integer has too many digits to be written in decimal. -/
def isLong (n : Int) : Bool := decide (Nat.pow 10 digitLimit ≤ n.natAbs)

def numberOf (digits : List Char) : Nat :=
  digits.foldl (fun n c => 10 * n + (c.toNat - 48)) 0

def binaryNat (n : Nat) : String := String.ofList (lastDigits 2 (max 1 (Bits.bitLength n)) n)

/-- An integer as a binary literal, with a minus sign if it is negative. -/
def binaryLiteral : Int → String
  | .ofNat n => "0b" ++ binaryNat n
  | .negSucc n => "-0b" ++ binaryNat (n + 1)

def fixedBinary (n width : Nat) : String := String.ofList (lastDigits 2 width n)

/-- The number of hexadecimal digits that `width` bits take, which is at least one. -/
def hexDigitCount (width : Nat) : Nat := max 1 ((width + 3) / 4)

/-- The hexadecimal literal of `n`, padded to `width` bits. -/
def fixedHex (n width : Nat) : String :=
  "0x" ++ String.ofList (lastDigits 16 (hexDigitCount width) n)

theorem digitsBefore_eq_append (radix count n : Nat) (text : List Char) :
    digitsBefore radix count n text = lastDigits radix count n ++ text := by
  induction count generalizing n text with
  | zero => rfl
  | succ count ih =>
    rw [lastDigits, digitsBefore, digitsBefore, ih, ih (n / radix) [_]]
    simp

theorem lastDigits_succ (radix count n : Nat) :
    lastDigits radix (count + 1) n =
      lastDigits radix count (n / radix) ++ [digitChar (n % radix)] := by
  rw [lastDigits, digitsBefore, digitsBefore_eq_append]

theorem length_lastDigits (radix count n : Nat) : (lastDigits radix count n).length = count := by
  induction count generalizing n with
  | zero => rfl
  | succ count ih => simp [lastDigits_succ, ih]

theorem exists_digit_of_mem_lastDigits {radix count n : Nat} {c : Char} (hpos : 0 < radix)
    (h : c ∈ lastDigits radix count n) : ∃ d < radix, c = digitChar d := by
  induction count generalizing n with
  | zero => cases h
  | succ count ih =>
    rw [lastDigits_succ, List.mem_append, List.mem_singleton] at h
    rcases h with h | rfl
    · exact ih h
    · exact ⟨n % radix, Nat.mod_lt n hpos, rfl⟩

end BitTemplate.Text
