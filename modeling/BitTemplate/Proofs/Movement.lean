import BitTemplate.LooseSegment
import BitTemplate.Proofs.Storage

/-!
A segment moves bits back and forth. What it takes out of a template value is a window of bits, put
to their place in the field value, and depositing is the same with the two places exchanged. So the
two ways undo one another on the bits of the segment, and each looks at these bits only. A segment
whose bounds were never checked moves the same bits, as long as none of them lies out of reach.
-/
namespace BitTemplate

open Failure

namespace Segment

/-- The segment that moves the same bits the other way. -/
def swap (s : Segment) : Segment := ⟨s.valueOffset, s.length, s.offset⟩

theorem moves_swap_iff (s : Segment) (b i : Nat) : s.swap.Moves i b ↔ s.Moves b i := by
  unfold Moves swap
  simp only
  omega

/-- A segment ties a bit of the template value to one bit of the field value. -/
theorem Moves.value_unique {s : Segment} {b i j : Nat} (hi : s.Moves b i) (hj : s.Moves b j) :
    i = j := by
  unfold Moves at hi hj
  omega

theorem testBit_valueMask_iff (s : Segment) (i : Nat) :
    s.valueMask.testBit i = true ↔ ∃ b, s.Moves b i :=
  (s.swap.testBit_mask_iff i).trans (exists_congr fun b => s.moves_swap_iff b i)

theorem deposit_eq_extract_swap (s : Segment) (x : Int) : s.deposit x = s.swap.extract x := by
  apply Bits.eq_of_bit_eq
  intro b
  rw [Bool.eq_iff_iff, bit_deposit_iff, bit_extract_iff]
  exact exists_congr fun i => and_congr_left' (s.moves_swap_iff b i).symm

/-- What was deposited is taken out again. -/
theorem extract_deposit (s : Segment) (x : Int) :
    s.extract (s.deposit x) = Bits.land x s.valueMask := by
  apply Bits.eq_of_bit_eq
  intro i
  rw [Bool.eq_iff_iff, bit_extract_iff, Bits.bit_land, Bits.bit_natCast, Bool.and_eq_true,
    testBit_valueMask_iff]
  constructor
  · rintro ⟨b, hmove, hbit⟩
    obtain ⟨j, hmove', hvalue⟩ := (s.bit_deposit_iff x b).mp hbit
    rw [hmove.value_unique hmove']
    exact ⟨hvalue, b, hmove'⟩
  · rintro ⟨hvalue, b, hmove⟩
    exact ⟨b, hmove, (s.bit_deposit_iff x b).mpr ⟨i, hmove, hvalue⟩⟩

/-- What was taken out is deposited where it was. -/
theorem deposit_extract (s : Segment) (y : Int) :
    s.deposit (s.extract y) = Bits.land y s.mask := by
  have hback : s.extract y = s.swap.deposit y := (s.swap.deposit_eq_extract_swap y).symm
  rw [deposit_eq_extract_swap, hback]
  exact s.swap.extract_deposit y

theorem extract_land_mask (s : Segment) (y : Int) :
    s.extract (Bits.land y s.mask) = s.extract y := by
  have hland : Bits.land (Bits.land y s.mask) s.mask = Bits.land y s.mask := by
    apply Bits.eq_of_bit_eq
    intro i
    simp
  rw [extract, hland, extract]

/-- Taking out tells apart exactly the values that differ on the segment. -/
theorem extract_eq_extract_iff (s : Segment) (y z : Int) :
    s.extract y = s.extract z ↔ Bits.land y s.mask = Bits.land z s.mask := by
  constructor
  · intro h
    rw [← deposit_extract, ← deposit_extract, h]
  · intro h
    rw [← extract_land_mask, h, extract_land_mask]

theorem deposit_eq_deposit_iff (s : Segment) (x z : Int) :
    s.deposit x = s.deposit z ↔ Bits.land x s.valueMask = Bits.land z s.valueMask := by
  rw [deposit_eq_extract_swap, deposit_eq_extract_swap]
  exact s.swap.extract_eq_extract_iff x z

/-- A segment takes a window of bits out of a template value and puts it to its place. -/
theorem extract_eq_window (s : Segment) (y : Int) :
    s.extract y = Bits.land (y >>> s.offset) (Bits.ones s.length) <<< s.valueOffset := by
  apply Bits.eq_of_bit_eq
  intro i
  rw [Bool.eq_iff_iff, bit_extract_iff, Bits.bit_shiftLeft, Bits.bit_land, Bits.bit_shiftRight,
    Bits.bit_natCast, Bits.testBit_ones]
  simp only [Bool.and_eq_true, decide_eq_true_eq]
  constructor
  · rintro ⟨b, ⟨hlow, hhigh, hplace⟩, hbit⟩
    have hb : s.offset + (i - s.valueOffset) = b := by omega
    rw [hb]
    exact ⟨by omega, hbit, by omega⟩
  · rintro ⟨hlow, hbit, hhigh⟩
    exact ⟨_, ⟨by omega, by omega, by omega⟩, hbit⟩

/-- Whether all bits of a segment lie so low that distances to them are told apart. -/
def WithinReach (s : Segment) : Prop :=
  s.offset + s.length ≤ Capacity.reach ∧ s.valueOffset + s.length ≤ Capacity.reach

end Segment

namespace Capacity

theorem checkMask_eq_ok {width offset : Nat} (h : width + offset + 1 < memoryLimit) :
    checkMask width offset = .ok () := by
  rw [checkMask, checkShift_eq_ok (by omega), ok_bind]
  split
  · exact checkShift_eq_ok (by omega)
  · rfl

theorem bounds_eq_ok {width offset : Nat} (h : width + offset + 1 < memoryLimit) :
    bounds (.int width) (.int offset) = .ok (width, offset) := by
  have hwidth : ¬ (width : Int) < 0 := by omega
  have hoffset : ¬ (offset : Int) < 0 := by omega
  unfold bounds
  rw [integer_eq_ok _ (width : Int) rfl, ok_bind, integer_eq_ok _ (offset : Int) rfl, ok_bind,
    if_neg hwidth, if_neg hoffset, Int.toNat_natCast, Int.toNat_natCast, checkMask_eq_ok h]
  rfl

theorem window_of_le {n : Int} {start length : Nat} (hstart : start ≤ reach)
    (hlength : length ≤ reach) :
    window n start length = Bits.land (n >>> start) (Bits.ones length) := by
  rw [window, min_eq_left hstart, min_eq_left hlength]

/-- A window is no longer than it was asked to be. -/
theorem windowLength_le {n : Int} {start length : Nat} (hstart : start ≤ reach)
    (hlength : length ≤ reach) : windowLength n start length ≤ length := by
  have hbounds : 0 ≤ window n start length ∧ window n start length < 2 ^ length := by
    have hpos : (0 : Int) < 2 ^ length := by positivity
    rw [window_of_le hstart hlength, Bits.land_ones]
    exact ⟨Int.emod_nonneg _ hpos.ne', Int.emod_lt_of_pos _ hpos⟩
  rw [windowLength, if_neg (by omega), Bits.bitLength_le_iff, Int.toNat_lt hbounds.1]
  exact_mod_cast hbounds.2

/-- Bits within reach are moved as far as they are to be moved. -/
theorem moveLeft_of_le {n : Int} {distance : Nat} (h : distance ≤ reach) :
    moveLeft n distance = n <<< distance := by
  rw [moveLeft, min_eq_left h]

end Capacity

namespace LooseSegment

theorem shift_ofSegment (s : Segment) : (ofSegment s).shift = .ok s.shift := by
  unfold shift
  rw [operand_eq_ok (ofSegment s).offset s.offset rfl, ok_bind,
    operand_eq_ok (ofSegment s).valueOffset s.valueOffset rfl, ok_bind]
  rfl

theorem bounds_ofSegment {s : Segment} (h : s.WithinReach) :
    Capacity.bounds (ofSegment s).length (ofSegment s).offset = .ok (s.length, s.offset) := by
  apply Capacity.bounds_eq_ok
  have hroom : Capacity.reach + 1 < Capacity.memoryLimit := by decide
  have := h.1
  omega

theorem mask_ofSegment {s : Segment} (h : s.WithinReach) : (ofSegment s).mask = .ok s.mask := by
  have hbits := h.1
  rw [mask, Capacity.mask, bounds_ofSegment h, map_ok, Capacity.maskOf, min_eq_left (by omega),
    min_eq_left (by omega)]
  rfl

theorem valueMask_ofSegment {s : Segment} (h : s.WithinReach) :
    (ofSegment s).valueMask = .ok s.valueMask :=
  mask_ofSegment (s := s.swap) h.symm

theorem offset_sub_shift (s : Segment) : (s.offset : Int) - s.shift = s.valueOffset := by
  unfold Segment.shift
  omega

theorem hidden_natCast (n : Nat) : hidden n = 0 := by
  unfold hidden
  omega

/-- Taking out looks at the bits of the segment first, so the value may be of any size. -/
theorem extract_ofSegment {s : Segment} (h : s.WithinReach) (y : Int) :
    (ofSegment s).extract (.int y) = .ok (s.extract y) := by
  have hoffset := h.1
  have hvalue := h.2
  have hinteger : (Value.int y).operand = .ok y := rfl
  have hcheck : Capacity.checkShift (s.offset + Capacity.windowLength y s.offset s.length)
      (-s.shift).toNat = .ok () := by
    have hlength : Capacity.windowLength y s.offset s.length ≤ s.length :=
      Capacity.windowLength_le (by omega) (by omega)
    have hroom : Capacity.reach + Capacity.reach < Capacity.memoryLimit := by decide
    apply Capacity.checkShift_eq_ok
    unfold Segment.shift
    omega
  simp only [extract, bounds_ofSegment h, ok_bind, hinteger, shift_ofSegment, offset_sub_shift,
    hidden_natCast, Nat.add_zero, Nat.sub_zero, Int.toNat_natCast, hcheck, ite_self]
  rw [Capacity.window_of_le (by omega) (by omega), Capacity.moveLeft_of_le (by omega),
    Segment.extract_eq_window]
  rfl

/-- Depositing moves the whole value first, which has to fit into memory then. -/
theorem deposit_ofSegment {s : Segment} (h : s.WithinReach) {x : Int}
    (hx : Bits.bitLength x.natAbs ≤ Capacity.reach) :
    (ofSegment s).deposit (.int x) = .ok (s.deposit x) := by
  have hoffset := h.1
  have hvalue := h.2
  have hinteger : (Value.int x).operand = .ok x := rfl
  have hcheck : Capacity.checkMove x s.shift = .ok () := by
    have hroom : Capacity.reach + Capacity.reach < Capacity.memoryLimit := by decide
    unfold Capacity.checkMove
    split
    · rfl
    · apply Capacity.checkShift_eq_ok
      unfold Segment.shift
      omega
  simp only [deposit, shift_ofSegment, ok_bind, hinteger, hcheck, bounds_ofSegment h,
    offset_sub_shift, hidden_natCast, Nat.add_zero, Nat.sub_zero, Int.toNat_natCast]
  rw [Capacity.window_of_le (by omega) (by omega), Capacity.moveLeft_of_le (by omega),
    Segment.deposit_eq_extract_swap, Segment.extract_eq_window]
  rfl

end LooseSegment

namespace Segment

/-- Extraction and deposit undo one another on the bits of a segment, whichever way these are moved,
and each tells apart exactly the integers that differ on its own side of the segment. A segment that
was never checked has the same masks and moves the same bits within reach. -/
theorem extract_deposit_inverse (s : Segment) (x y : Int) :
    s.extract (s.deposit x) = Bits.land x s.valueMask ∧
    s.deposit (s.extract y) = Bits.land y s.mask ∧
    (∀ z, s.extract y = s.extract z ↔ Bits.land y s.mask = Bits.land z s.mask) ∧
    (∀ z, s.deposit x = s.deposit z ↔ Bits.land x s.valueMask = Bits.land z s.valueMask) ∧
    (s.WithinReach → Bits.bitLength x.natAbs ≤ Capacity.reach →
      (LooseSegment.ofSegment s).mask = .ok s.mask ∧
      (LooseSegment.ofSegment s).valueMask = .ok s.valueMask ∧
      (LooseSegment.ofSegment s).extract (.int y) = .ok (s.extract y) ∧
      (LooseSegment.ofSegment s).deposit (.int x) = .ok (s.deposit x)) := by
  refine ⟨s.extract_deposit x, s.deposit_extract y, s.extract_eq_extract_iff y,
    s.deposit_eq_deposit_iff x, ?_⟩
  intro hreach hx
  exact ⟨LooseSegment.mask_ofSegment hreach, LooseSegment.valueMask_ofSegment hreach,
    LooseSegment.extract_ofSegment hreach y, LooseSegment.deposit_ofSegment hreach hx⟩

/-- A segment whose bits in the field value overlap those in the template value, moved up and down
for a negative integer. -/
theorem extract_deposit_inverse_overlapping :
    WithinReach ⟨1, 3, 2⟩ ∧ extract ⟨1, 3, 2⟩ (deposit ⟨1, 3, 2⟩ (-5)) = 24 ∧
      deposit ⟨1, 3, 2⟩ (extract ⟨1, 3, 2⟩ (-5)) = 10 ∧
      deposit ⟨1, 3, 2⟩ (-5) = deposit ⟨1, 3, 2⟩ 24 ∧
      (LooseSegment.ofSegment ⟨1, 3, 2⟩).deposit (.int (-5)) = .ok 12 := by
  obtain ⟨hextract, hdeposit, _, honly, hloose⟩ := extract_deposit_inverse ⟨1, 3, 2⟩ (-5) (-5)
  have hreach : WithinReach ⟨1, 3, 2⟩ := by
    unfold WithinReach
    decide
  refine ⟨hreach, hextract, hdeposit, (honly 24).mpr rfl, ?_⟩
  exact (hloose hreach (by decide)).2.2.2

end Segment

end BitTemplate
