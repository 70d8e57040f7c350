import BitTemplate.Bits
import Mathlib.Algebra.Order.Ring.Int
import Mathlib.Tactic.Positivity
import Mathlib.Tactic.Ring

/-!
The bits of shifted, united and reduced integers. Two integers with the same bits are equal, so
every identity between expressions of masks and shifts is proved one bit at a time. An integer
lies in a window of low bits exactly if all higher bits are clear. A list of binary digits, the
most significant first, denotes a number whose bits are the digits in reverse.
-/
namespace BitTemplate.Bits

theorem bit_shiftRight (x : Int) (d i : Nat) : bit (x >>> d) i = bit x (d + i) := by
  cases x with
  | ofNat n =>
    change (n >>> d).testBit i = n.testBit (d + i)
    exact Nat.testBit_shiftRight n
  | negSucc n =>
    change (!(n >>> d).testBit i) = !n.testBit (d + i)
    rw [Nat.testBit_shiftRight]

private theorem bit_two_mul (x : Int) (i : Nat) :
    bit (2 * x) i = (decide (1 ≤ i) && bit x (i - 1)) := by
  cases x with
  | ofNat n =>
    have hdouble : (2 * Int.ofNat n) = Int.ofNat (2 * n) := rfl
    rw [hdouble]
    cases i with
    | zero => simp [bit]
    | succ i => simp [bit, Nat.testBit_succ]
  | negSucc n =>
    have hdouble : (2 * Int.negSucc n) = Int.negSucc (2 * n + 1) := by omega
    rw [hdouble]
    cases i with
    | zero => simp [bit]
    | succ i =>
      have hhalf : (2 * n + 1) / 2 = n := by omega
      simp [bit, Nat.testBit_succ, hhalf]

theorem bit_shiftLeft (x : Int) (d i : Nat) :
    bit (x <<< d) i = (decide (d ≤ i) && bit x (i - d)) := by
  induction d generalizing i with
  | zero => simp
  | succ d ih =>
    rw [Int.shiftLeft_succ', bit_two_mul, ih]
    by_cases hle : d + 1 ≤ i
    · have h1 : 1 ≤ i := by omega
      have hd : d ≤ i - 1 := by omega
      have hsub : i - 1 - d = i - (d + 1) := by omega
      simp [hle, h1, hd, hsub]
    · by_cases h1 : 1 ≤ i
      · have hd : ¬ d ≤ i - 1 := by omega
        simp [hle, h1, hd]
      · simp [hle, h1]

private theorem testBit_max (m n : Nat) :
    m.testBit (max m n) = false ∧ n.testBit (max m n) = false := by
  constructor
  · apply Nat.testBit_lt_two_pow
    exact lt_of_le_of_lt (le_max_left m n) Nat.lt_two_pow_self
  · apply Nat.testBit_lt_two_pow
    exact lt_of_le_of_lt (le_max_right m n) Nat.lt_two_pow_self

/-- Integers with the same bits are equal. Those of different signs differ in every bit that is
high enough. -/
theorem eq_of_bit_eq {x y : Int} (h : ∀ i, bit x i = bit y i) : x = y := by
  cases x with
  | ofNat m =>
    cases y with
    | ofNat n =>
      have hmn : m = n := Nat.eq_of_testBit_eq h
      rw [hmn]
    | negSucc n =>
      obtain ⟨hm, hn⟩ := testBit_max m n
      have hbit := h (max m n)
      simp [bit, hm, hn] at hbit
  | negSucc m =>
    cases y with
    | ofNat n =>
      obtain ⟨hm, hn⟩ := testBit_max m n
      have hbit := h (max m n)
      simp [bit, hm, hn] at hbit
    | negSucc n =>
      have hmn : m = n := Nat.eq_of_testBit_eq fun i => by simpa [bit] using h i
      rw [hmn]

theorem ne_zero_iff (x : Int) : x ≠ 0 ↔ ∃ i, bit x i = true := by
  constructor
  · intro hne
    by_contra hnone
    apply hne
    apply eq_of_bit_eq
    intro i
    rw [bit_zero]
    exact Bool.eq_false_iff.mpr fun hi => hnone ⟨i, hi⟩
  · rintro ⟨i, hi⟩ rfl
    simp at hi

theorem bit_foldl_lor (xs : List Int) (start : Int) (i : Nat) :
    bit (xs.foldl lor start) i = (bit start i || xs.any fun x => bit x i) := by
  induction xs generalizing start with
  | nil => simp
  | cons x rest ih => simp [ih, Bool.or_assoc]

@[simp] theorem bit_union (xs : List Int) (i : Nat) :
    bit (union xs) i = xs.any fun x => bit x i := by
  simp [union, bit_foldl_lor]

theorem bit_union_iff (xs : List Int) (i : Nat) :
    bit (union xs) i = true ↔ ∃ x ∈ xs, bit x i = true := by
  simp

@[simp] theorem testBit_ones (width i : Nat) : (ones width).testBit i = decide (i < width) := by
  simp [ones, Nat.one_shiftLeft]

theorem ones_eq (width : Nat) : (ones width : Int) = 2 ^ width - 1 := by
  have hpos : 1 ≤ 2 ^ width := Nat.one_le_two_pow
  rw [ones, Nat.one_shiftLeft]
  push_cast [hpos]
  rfl

/-- Cutting an integer of either sign to its low bits is reduction modulo a power of two. -/
theorem land_ones (x : Int) (width : Nat) : land x (ones width) = x % 2 ^ width := by
  cases x with
  | ofNat n =>
    change ((n &&& ones width : Nat) : Int) = (n : Int) % 2 ^ width
    rw [ones, Nat.one_shiftLeft, Nat.and_two_pow_sub_one_eq_mod]
    push_cast
    rfl
  | negSucc n =>
    have hlt : n % 2 ^ width < 2 ^ width := Nat.mod_lt n (Nat.two_pow_pos width)
    have hwithout : without (ones width) n = 2 ^ width - (n % 2 ^ width + 1) := by
      apply Nat.eq_of_testBit_eq
      intro i
      rw [testBit_without, testBit_ones, Nat.testBit_two_pow_sub_succ hlt, Nat.testBit_mod_two_pow]
      by_cases hi : i < width <;> simp [hi]
    have hpos : (0 : Int) < 2 ^ width := by positivity
    change ((without (ones width) n : Nat) : Int) = Int.negSucc n % 2 ^ width
    rw [hwithout, Int.negSucc_emod n hpos, Nat.cast_sub (by omega)]
    push_cast
    ring

theorem bit_emod_two_pow (x : Int) (width i : Nat) :
    bit (x % 2 ^ width) i = (decide (i < width) && bit x i) := by
  rw [← land_ones, bit_land, bit_natCast, testBit_ones, Bool.and_comm]

/-- An integer without bits from `width` on is its own remainder. -/
theorem emod_two_pow_eq_self {x : Int} {width : Nat}
    (h : ∀ i, width ≤ i → bit x i = false) : x % 2 ^ width = x := by
  apply eq_of_bit_eq
  intro i
  rw [bit_emod_two_pow]
  by_cases hi : i < width
  · simp [hi]
  · simp [hi, h i (by omega)]

theorem bounds_of_bits {x : Int} {width : Nat} (h : ∀ i, width ≤ i → bit x i = false) :
    0 ≤ x ∧ x < 2 ^ width := by
  have hpos : (0 : Int) < 2 ^ width := by positivity
  have hself := emod_two_pow_eq_self h
  constructor
  · rw [← hself]
    exact Int.emod_nonneg x hpos.ne'
  · rw [← hself]
    exact Int.emod_lt_of_pos x hpos

theorem bit_eq_false_of_bounds {x : Int} {width i : Nat} (h0 : 0 ≤ x) (hx : x < 2 ^ width)
    (hi : width ≤ i) : bit x i = false := by
  rw [← Int.emod_eq_of_lt h0 hx, bit_emod_two_pow]
  simp [Nat.not_lt.mpr hi]

/-- A number has no more digits than a power of two above it has zeros. -/
theorem bitLength_le_iff (n width : Nat) : bitLength n ≤ width ↔ n < 2 ^ width := by
  unfold bitLength
  split
  · rename_i hzero
    simp [hzero]
  · rename_i hne
    exact Nat.log2_lt hne

/-- The number with the given binary digits, the most significant first. -/
def ofDigits (digits : List Bool) : Nat :=
  digits.foldl (fun number digit => 2 * number + digit.toNat) 0

/-- Bit 0 is the last digit. -/
theorem testBit_ofDigits (digits : List Bool) (i : Nat) :
    (ofDigits digits).testBit i = (digits.reverse[i]?).getD false := by
  induction digits using List.reverseRecOn generalizing i with
  | nil => simp [ofDigits]
  | append_singleton rest digit ih =>
    have hstep : ofDigits (rest ++ [digit]) = 2 * ofDigits rest + digit.toNat := by
      simp [ofDigits]
    rw [hstep, List.reverse_append]
    cases i with
    | zero => cases digit <;> simp
    | succ i =>
      have hhalf : (2 * ofDigits rest + digit.toNat) / 2 = ofDigits rest := by
        have := digit.toNat_lt
        omega
      rw [Nat.testBit_succ, hhalf, ih]
      simp

/-- A set bit of a number is a set digit, counted from the other end. -/
theorem testBit_ofDigits_iff (digits : List Bool) (i : Nat) :
    (ofDigits digits).testBit i = true ↔
      ∃ j, digits[j]? = some true ∧ j + i + 1 = digits.length := by
  rw [testBit_ofDigits]
  by_cases hi : i < digits.length
  · rw [List.getElem?_reverse hi]
    constructor
    · intro h
      refine ⟨digits.length - 1 - i, ?_, by omega⟩
      rw [List.getElem?_eq_getElem (by omega)] at h ⊢
      simpa using h
    · rintro ⟨j, hj, hsum⟩
      have hindex : digits.length - 1 - i = j := by omega
      rw [hindex, hj]
      rfl
  · rw [List.getElem?_eq_none (by simpa using hi)]
    constructor
    · intro h
      simp at h
    · rintro ⟨j, _, hsum⟩
      omega

/-- The digits of a number are its bits, the highest first. -/
theorem digits_eq_testBits (digits : List Bool) :
    digits = (List.range digits.length).reverse.map (ofDigits digits).testBit := by
  rw [List.map_reverse, ← List.reverse_eq_iff]
  refine List.ext_getElem (by simp) ?_
  intro i hi _
  rw [List.getElem_map, List.getElem_range, testBit_ofDigits, List.getElem?_eq_getElem hi]
  rfl

theorem ofDigits_testBits {n width : Nat} (h : n < 2 ^ width) :
    ofDigits ((List.range width).reverse.map n.testBit) = n := by
  apply Nat.eq_of_testBit_eq
  intro i
  rw [testBit_ofDigits, List.map_reverse, List.reverse_reverse, List.getElem?_map]
  by_cases hi : i < width
  · simp [hi]
  · have hpow : 2 ^ width ≤ 2 ^ i := Nat.pow_le_pow_right (by omega) (by omega)
    simp [hi, Nat.testBit_lt_two_pow (h.trans_le hpow)]

end BitTemplate.Bits
