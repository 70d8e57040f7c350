import BitTemplate.Field.Basic
import BitTemplate.Proofs.Bits

/-!
Which bits a field moves. A segment ties bits of the field value to bits of the template value,
one to one, and the segments of a field together tie bit `k - 1 - j` of a `k`-bit field value to
the bit of its position number `j`. This holds for positions in any order. From it come the bits
of everything that is extracted, deposited or masked. Extraction equals the fold that reads the
positions one by one.
-/
namespace BitTemplate

namespace Segment

/-- The segment ties bit `b` of the template value to bit `i` of the field value. -/
def Moves (s : Segment) (b i : Nat) : Prop :=
  s.offset ≤ b ∧ b < s.offset + s.length ∧ b + s.valueOffset = i + s.offset

theorem testBit_mask_iff (s : Segment) (b : Nat) :
    s.mask.testBit b = true ↔ ∃ i, s.Moves b i := by
  rw [mask, Bits.testBit_mask, decide_eq_true_eq]
  constructor
  · rintro ⟨hlow, hhigh⟩
    exact ⟨b - s.offset + s.valueOffset, hlow, hhigh, by omega⟩
  · rintro ⟨i, hlow, hhigh, _⟩
    exact ⟨hlow, hhigh⟩

theorem bit_extract_iff (s : Segment) (value : Int) (i : Nat) :
    Bits.bit (s.extract value) i = true ↔ ∃ b, s.Moves b i ∧ Bits.bit value b = true := by
  -- Either shift brings bit `i` from the same place; only the side of the subtraction differs.
  have hplace : Bits.bit (s.extract value) i = true ↔
      s.valueOffset ≤ s.offset + i ∧
        Bits.bit (Bits.land value s.mask) (s.offset + i - s.valueOffset) = true := by
    unfold extract
    split
    · rename_i hle
      have hsum : s.offset - s.valueOffset + i = s.offset + i - s.valueOffset := by omega
      have hlow : s.valueOffset ≤ s.offset + i := by omega
      rw [Bits.bit_shiftRight, hsum]
      simp [hlow]
    · rename_i hgt
      have hsub : i - (s.valueOffset - s.offset) = s.offset + i - s.valueOffset := by omega
      have hcond : s.valueOffset - s.offset ≤ i ↔ s.valueOffset ≤ s.offset + i := by omega
      rw [Bits.bit_shiftLeft, hsub]
      simp [hcond]
  rw [hplace, Bits.bit_land, Bits.bit_natCast, Bool.and_eq_true, testBit_mask_iff]
  constructor
  · rintro ⟨hlow, hbit, j, hmove⟩
    refine ⟨_, ?_, hbit⟩
    obtain ⟨h1, h2, _⟩ := hmove
    exact ⟨h1, h2, by omega⟩
  · rintro ⟨b, hmove, hbit⟩
    obtain ⟨h1, h2, h3⟩ := hmove
    have hb : s.offset + i - s.valueOffset = b := by omega
    rw [hb]
    exact ⟨by omega, hbit, i, h1, h2, h3⟩

theorem bit_deposit_iff (s : Segment) (value : Int) (b : Nat) :
    Bits.bit (s.deposit value) b = true ↔ ∃ i, s.Moves b i ∧ Bits.bit value i = true := by
  unfold deposit
  rw [Bits.bit_land, Bits.bit_natCast, Bool.and_eq_true, testBit_mask_iff]
  have hplace : ∀ i, s.Moves b i →
      Bits.bit (if s.valueOffset ≤ s.offset then value <<< (s.offset - s.valueOffset)
        else value >>> (s.valueOffset - s.offset)) b = Bits.bit value i := by
    rintro i ⟨h1, h2, h3⟩
    split
    · have hd : s.offset - s.valueOffset ≤ b := by omega
      have hi : b - (s.offset - s.valueOffset) = i := by omega
      rw [Bits.bit_shiftLeft, hi]
      simp [hd]
    · have hi : s.valueOffset - s.offset + b = i := by omega
      rw [Bits.bit_shiftRight, hi]
  constructor
  · rintro ⟨hbit, i, hmove⟩
    exact ⟨i, hmove, by rw [← hplace i hmove]; exact hbit⟩
  · rintro ⟨i, hmove, hbit⟩
    exact ⟨by rw [hplace i hmove]; exact hbit, i, hmove⟩

end Segment

/-- One more position in front makes the first run longer, or else is a run of its own. -/
theorem runs_cons_cases (p : Nat) (rest : List Nat) :
    (∃ head others, runs rest = head :: others ∧ head.start = p + 1 ∧
      runs (p :: rest) = ⟨p, head.length + 1⟩ :: others) ∨
    ((∀ head ∈ (runs rest).head?, head.start ≠ p + 1) ∧
      runs (p :: rest) = ⟨p, 1⟩ :: runs rest) := by
  cases hcons : runs rest with
  | nil => exact Or.inr ⟨by simp, by rw [runs, hcons]⟩
  | cons head others =>
    by_cases hnext : head.start = p + 1
    · exact Or.inl ⟨head, others, rfl, hnext, by rw [runs, hcons]; exact if_pos hnext⟩
    · exact Or.inr ⟨by simpa using hnext, by rw [runs, hcons]; exact if_neg hnext⟩

theorem covered_runs (ps : List Nat) : covered (runs ps) = ps.length := by
  induction ps with
  | nil => rfl
  | cons p rest ih =>
    obtain ⟨head, others, hcons, -, hruns⟩ | ⟨-, hruns⟩ := runs_cons_cases p rest
    · rw [hcons, covered] at ih
      rw [hruns, covered, List.length_cons, ← ih]
      exact Nat.add_right_comm _ _ _
    · rw [hruns, covered, List.length_cons, ih, Nat.add_comm]

/-- A run ends inside any template that its positions lie in. -/
theorem run_le (w : Nat) (ps : List Nat) (hbelow : ∀ p ∈ ps, p < w) :
    ∀ run ∈ runs ps, run.start + run.length ≤ w := by
  induction ps with
  | nil => simp [runs]
  | cons p rest ih =>
    rw [List.forall_mem_cons] at hbelow
    have hrest := ih hbelow.2
    obtain ⟨head, others, hcons, hnext, hruns⟩ | ⟨-, hruns⟩ := runs_cons_cases p rest
    · rw [hcons, List.forall_mem_cons] at hrest
      rw [hruns, List.forall_mem_cons]
      refine ⟨?_, hrest.2⟩
      simp only
      omega
    · rw [hruns, List.forall_mem_cons]
      exact ⟨hbelow.1, hrest⟩

/-- One more position in front adds exactly one pair of tied bits, whether it extends the first
run or starts a run of its own. -/
theorem moves_segmentsOf_cons (w p : Nat) (rest : List Nat) (hp : p < w)
    (hbelow : ∀ q ∈ rest, q < w) (b i : Nat) :
    (∃ s ∈ segmentsOf w (runs (p :: rest)), s.Moves b i) ↔
      (p + b + 1 = w ∧ i = rest.length) ∨ ∃ s ∈ segmentsOf w (runs rest), s.Moves b i := by
  have hlength := covered_runs rest
  obtain ⟨head, others, hcons, hnext, hruns⟩ | ⟨-, hruns⟩ := runs_cons_cases p rest
  · have hhead := run_le w rest hbelow head (by rw [hcons]; exact .head _)
    rw [hcons, covered] at hlength
    simp only [hruns, hcons, segmentsOf, Segment.Moves, List.mem_cons, exists_eq_or_imp]
    rw [← or_assoc]
    refine or_congr_left ?_
    omega
  · simp only [hruns, segmentsOf, hlength, Segment.Moves, List.mem_cons, exists_eq_or_imp]
    refine or_congr_left ?_
    omega

/-- The segments of a list of positions tie bit `k - 1 - j` of a value to the bit of position
number `j`, and tie nothing else. -/
theorem moves_segmentsOf_iff (w : Nat) (ps : List Nat) (hbelow : ∀ p ∈ ps, p < w) (b i : Nat) :
    (∃ s ∈ segmentsOf w (runs ps), s.Moves b i) ↔
      ∃ j p, ps[j]? = some p ∧ p + b + 1 = w ∧ j + i + 1 = ps.length := by
  induction ps with
  | nil => simp [runs, segmentsOf]
  | cons p rest ih =>
    have hp : p < w := hbelow p (List.mem_cons_self ..)
    have hrest : ∀ q ∈ rest, q < w := fun q hq => hbelow q (List.mem_cons_of_mem _ hq)
    rw [moves_segmentsOf_cons w p rest hp hrest, ih hrest]
    constructor
    · rintro (⟨hb, hi⟩ | ⟨j, q, hq, hb, hi⟩)
      · exact ⟨0, p, rfl, hb, by simp [hi]⟩
      · refine ⟨j + 1, q, by simpa using hq, hb, ?_⟩
        rw [List.length_cons]
        omega
    · rintro ⟨j, q, hq, hb, hi⟩
      rw [List.length_cons] at hi
      cases j with
      | zero =>
        simp only [List.getElem?_cons_zero, Option.some.injEq] at hq
        subst hq
        exact Or.inl ⟨hb, by omega⟩
      | succ j =>
        exact Or.inr ⟨j, q, by simpa using hq, hb, by omega⟩

/-- The number read from a template value at some positions, from left to right: each position adds
one binary digit. -/
def readPositions (width : Nat) (positions : List Nat) (value : Int) : Nat :=
  positions.foldl (fun number p => 2 * number + (Bits.bit value (width - 1 - p)).toNat) 0

namespace Field

/-- The field ties bit `b` of the template value to bit `i` of the field value. -/
def Moves (f : Field) (b i : Nat) : Prop := ∃ s ∈ f.segments, s.Moves b i

theorem moves_iff (f : Field) (b i : Nat) :
    f.Moves b i ↔ ∃ j p, f.positions[j]? = some p ∧ p + b + 1 = f.templateWidth ∧
      j + i + 1 = f.width :=
  moves_segmentsOf_iff f.templateWidth f.positions f.below b i

theorem Moves.bounds {f : Field} {b i : Nat} (h : f.Moves b i) :
    b < f.templateWidth ∧ i < f.width := by
  obtain ⟨j, p, _, hb, hi⟩ := (f.moves_iff b i).mp h
  omega

/-- Every bit of the field value has its place in the template. -/
theorem exists_moves (f : Field) {i : Nat} (hi : i < f.width) : ∃ b, f.Moves b i := by
  have hj : f.width - 1 - i < f.positions.length := by
    change f.width - 1 - i < f.width
    omega
  have hp : f.positions[f.width - 1 - i] < f.templateWidth :=
    f.below _ (List.getElem_mem hj)
  refine ⟨f.templateWidth - 1 - f.positions[f.width - 1 - i], ?_⟩
  refine (f.moves_iff _ _).mpr ⟨_, _, List.getElem?_eq_getElem hj, ?_, ?_⟩
  · omega
  · omega

theorem Moves.template_unique {f : Field} {b c i : Nat} (hb : f.Moves b i) (hc : f.Moves c i) :
    b = c := by
  obtain ⟨j, p, hp, hpb, hj⟩ := (f.moves_iff b i).mp hb
  obtain ⟨k, q, hq, hqc, hk⟩ := (f.moves_iff c i).mp hc
  have hjk : j = k := by omega
  subst hjk
  rw [hp] at hq
  have hpq : p = q := Option.some.inj hq
  omega

theorem Moves.value_unique {f : Field} {b i j : Nat} (hi : f.Moves b i) (hj : f.Moves b j) :
    i = j := by
  obtain ⟨k, p, hp, hpb, hk⟩ := (f.moves_iff b i).mp hi
  obtain ⟨m, q, hq, hqb, hm⟩ := (f.moves_iff b j).mp hj
  have hpq : p = q := by omega
  have hlt := (List.getElem?_eq_some_iff.mp hp).1
  have hkm : k = m := (List.getElem?_inj hlt f.nodup).mp (by rw [hp, hq, hpq])
  omega

theorem bit_extract_iff (f : Field) (value : Int) (i : Nat) :
    Bits.bit (f.extract value) i = true ↔ ∃ b, f.Moves b i ∧ Bits.bit value b = true := by
  unfold extract
  rw [Bits.bit_union_iff]
  constructor
  · rintro ⟨x, hx, hbit⟩
    obtain ⟨s, hs, rfl⟩ := List.mem_map.mp hx
    obtain ⟨b, hmove, hb⟩ := (s.bit_extract_iff value i).mp hbit
    exact ⟨b, ⟨s, hs, hmove⟩, hb⟩
  · rintro ⟨b, ⟨s, hs, hmove⟩, hb⟩
    exact ⟨s.extract value, List.mem_map_of_mem hs,
      (s.bit_extract_iff value i).mpr ⟨b, hmove, hb⟩⟩

theorem bit_deposit_iff (f : Field) (value : Int) (b : Nat) :
    Bits.bit (f.deposit value) b = true ↔ ∃ i, f.Moves b i ∧ Bits.bit value i = true := by
  unfold deposit
  rw [Bits.bit_union_iff]
  constructor
  · rintro ⟨x, hx, hbit⟩
    obtain ⟨s, hs, rfl⟩ := List.mem_map.mp hx
    obtain ⟨i, hmove, hi⟩ := (s.bit_deposit_iff value b).mp hbit
    exact ⟨i, ⟨s, hs, hmove⟩, hi⟩
  · rintro ⟨i, ⟨s, hs, hmove⟩, hi⟩
    exact ⟨s.deposit value, List.mem_map_of_mem hs,
      (s.bit_deposit_iff value b).mpr ⟨i, hmove, hi⟩⟩

private theorem testBit_foldl_mask (segments : List Segment) (start b : Nat) :
    (segments.foldl (fun mask segment => mask ||| segment.mask) start).testBit b = true ↔
      start.testBit b = true ∨ ∃ s ∈ segments, s.mask.testBit b = true := by
  induction segments generalizing start with
  | nil => simp
  | cons s rest ih =>
    rw [List.foldl_cons, ih, Nat.testBit_or, Bool.or_eq_true, or_assoc]
    simp only [List.mem_cons, exists_eq_or_imp]

theorem testBit_mask_iff (f : Field) (b : Nat) :
    f.mask.testBit b = true ↔ ∃ i, f.Moves b i := by
  unfold mask
  rw [testBit_foldl_mask]
  constructor
  · rintro (h | ⟨s, hs, hbit⟩)
    · simp at h
    · obtain ⟨i, hmove⟩ := (s.testBit_mask_iff b).mp hbit
      exact ⟨i, s, hs, hmove⟩
  · rintro ⟨i, s, hs, hmove⟩
    exact Or.inr ⟨s, hs, (s.testBit_mask_iff b).mpr ⟨i, hmove⟩⟩

private theorem lt_of_testBit {n width : Nat} (h : ∀ b, n.testBit b = true → b < width) :
    n < 1 <<< width := by
  rw [Nat.one_shiftLeft]
  apply Nat.lt_pow_two_of_testBit
  intro b hb
  exact Bool.eq_false_iff.mpr fun hbit => by
    have := h b hbit
    omega

/-- The mask of a segment fits the template. -/
theorem segment_mask_lt (f : Field) {s : Segment} (hs : s ∈ f.segments) :
    s.mask < 1 <<< f.templateWidth := by
  apply lt_of_testBit
  intro b hbit
  obtain ⟨i, hmove⟩ := (s.testBit_mask_iff b).mp hbit
  exact (Moves.bounds ⟨s, hs, hmove⟩).1

theorem mask_lt (f : Field) : f.mask < 1 <<< f.templateWidth := by
  apply lt_of_testBit
  intro b hbit
  obtain ⟨i, hmove⟩ := (f.testBit_mask_iff b).mp hbit
  exact hmove.bounds.1

/-- The field value read position by position. -/
def read (f : Field) (value : Int) : Nat := readPositions f.templateWidth f.positions value

theorem read_eq_ofDigits (f : Field) (value : Int) :
    f.read value =
      Bits.ofDigits (f.positions.map fun p => Bits.bit value (f.templateWidth - 1 - p)) := by
  rw [read, readPositions, Bits.ofDigits, List.foldl_map]

theorem testBit_read_iff (f : Field) (value : Int) (i : Nat) :
    (f.read value).testBit i = true ↔ ∃ b, f.Moves b i ∧ Bits.bit value b = true := by
  rw [read_eq_ofDigits, Bits.testBit_ofDigits_iff, List.length_map]
  constructor
  · rintro ⟨j, hj, hsum⟩
    rw [List.getElem?_map, Option.map_eq_some_iff] at hj
    obtain ⟨p, hp, hbit⟩ := hj
    have hlt : p < f.templateWidth := f.below p (List.mem_of_getElem? hp)
    refine ⟨f.templateWidth - 1 - p, ?_, hbit⟩
    exact (f.moves_iff _ _).mpr ⟨j, p, hp, by omega, hsum⟩
  · rintro ⟨b, hmove, hbit⟩
    obtain ⟨j, p, hp, hb, hsum⟩ := (f.moves_iff b i).mp hmove
    refine ⟨j, ?_, hsum⟩
    have hplace : f.templateWidth - 1 - p = b := by omega
    rw [List.getElem?_map, hp, Option.map_some, hplace, hbit]

/-- Extraction by segments reads the positions one by one. -/
theorem extract_eq_read (f : Field) (value : Int) : f.extract value = f.read value := by
  apply Bits.eq_of_bit_eq
  intro i
  rw [Bool.eq_iff_iff, bit_extract_iff, Bits.bit_natCast, testBit_read_iff]

/-- Some bit of a field is set exactly if its value is not zero. -/
theorem land_mask_ne_zero_iff (f : Field) (value : Int) :
    Bits.land value f.mask ≠ 0 ↔ f.extract value ≠ 0 := by
  rw [Bits.ne_zero_iff, Bits.ne_zero_iff]
  constructor
  · rintro ⟨b, hbit⟩
    rw [Bits.bit_land, Bits.bit_natCast, Bool.and_eq_true, testBit_mask_iff] at hbit
    obtain ⟨hvalue, i, hmove⟩ := hbit
    exact ⟨i, (f.bit_extract_iff value i).mpr ⟨b, hmove, hvalue⟩⟩
  · rintro ⟨i, hbit⟩
    obtain ⟨b, hmove, hvalue⟩ := (f.bit_extract_iff value i).mp hbit
    refine ⟨b, ?_⟩
    rw [Bits.bit_land, Bits.bit_natCast, Bool.and_eq_true, testBit_mask_iff]
    exact ⟨hvalue, i, hmove⟩

/-- An extracted value fits its field. -/
theorem extract_bounds (f : Field) (value : Int) :
    0 ≤ f.extract value ∧ f.extract value < 2 ^ f.width := by
  apply Bits.bounds_of_bits
  intro i hi
  rw [Bool.eq_false_iff, ne_eq, bit_extract_iff]
  rintro ⟨b, hmove, _⟩
  have := hmove.bounds.2
  omega

/-- Extraction looks at the bits of the template only. -/
theorem extract_emod (f : Field) (value : Int) :
    f.extract (value % 2 ^ f.templateWidth) = f.extract value := by
  apply Bits.eq_of_bit_eq
  intro i
  rw [Bool.eq_iff_iff, bit_extract_iff, bit_extract_iff]
  refine exists_congr fun b => and_congr_right fun hmove => ?_
  have hb := hmove.bounds.1
  rw [Bits.bit_emod_two_pow]
  simp [hb]

/-- Depositing looks at the bits of the field only. -/
theorem deposit_congr (f : Field) {u v : Int}
    (h : ∀ i, i < f.width → Bits.bit u i = Bits.bit v i) : f.deposit u = f.deposit v := by
  apply Bits.eq_of_bit_eq
  intro b
  rw [Bool.eq_iff_iff, bit_deposit_iff, bit_deposit_iff]
  refine exists_congr fun i => and_congr_right fun hmove => ?_
  rw [h i hmove.bounds.2]

/-- A field gives back the low bits of what was deposited in it. -/
theorem extract_deposit (f : Field) (value : Int) :
    f.extract (f.deposit value) = value % 2 ^ f.width := by
  apply Bits.eq_of_bit_eq
  intro i
  rw [Bits.bit_emod_two_pow, Bool.eq_iff_iff, bit_extract_iff, Bool.and_eq_true,
    decide_eq_true_eq]
  constructor
  · intro h
    obtain ⟨b, hmove, hbit⟩ := h
    obtain ⟨j, hmove', hvalue⟩ := (f.bit_deposit_iff value b).mp hbit
    rw [hmove.value_unique hmove']
    exact ⟨hmove'.bounds.2, hvalue⟩
  · intro h
    obtain ⟨hi, hvalue⟩ := h
    obtain ⟨b, hmove⟩ := f.exists_moves hi
    exact ⟨b, hmove, (f.bit_deposit_iff value b).mpr ⟨i, hmove, hvalue⟩⟩

theorem bit_deposit_of_le (f : Field) (value : Int) {b : Nat} (hb : f.templateWidth ≤ b) :
    Bits.bit (f.deposit value) b = false := by
  rw [Bool.eq_false_iff, ne_eq, bit_deposit_iff]
  rintro ⟨i, hmove, _⟩
  have := hmove.bounds.1
  omega

end Field

end BitTemplate
