import BitTemplate.Operation.Combination
import BitTemplate.Proofs.Cells
import BitTemplate.Proofs.Failure

/-!
What combination and replacement store. Each slot lets its value pass, refuses it or lowers it;
cutting a value off needs no step of its own, because depositing looks at the bits of the field
only. All values pass or the first refusal is reported. Those that passed are placed, and the
union with the literals and the kept bits is cut to the width of the template.
-/
namespace BitTemplate

open Failure

namespace Slot

/-- The value that a slot goes on with, or the refusal of a value that does not fit. -/
def pass (s : Slot) (value : Int) : Except Error Int :=
  if s.checked then
    match s.overflow with
    | .panic =>
      if (Bits.ones s.width : Int) < value then
        .error (.excess (.ofLetter s.name) value (.int s.width))
      else .ok value
    | .saturate => .ok (min value (Bits.ones s.width))
    | .truncate => .ok value
    | .corrupt => .ok value
  else .ok value

/-- The template bits of a value that has passed. -/
def place (s : Slot) (value : Int) : Int :=
  if s.spills then Bits.lor (s.field.deposit value) (s.field.spill value)
  else s.field.deposit value

/-- Cutting a value off before it is deposited changes nothing. -/
theorem deposit_land_ones (f : Field) (value : Int) :
    f.deposit (Bits.land value (Bits.ones f.width)) = f.deposit value := by
  apply f.deposit_congr
  intro i hi
  simp [hi]

theorem store_eq (s : Slot) (value : Int) : s.store value = (s.pass value).map s.place := by
  unfold store pass place spills
  by_cases hchecked : s.checked = true
  · cases hpolicy : s.overflow with
    | truncate =>
      have hcut := deposit_land_ones s.field value
      simp [hchecked, Overflow.adapt, Overflow.adapt?, width, bind, Except.bind, pure,
        Except.pure, hcut]
    | panic =>
      by_cases hover : (Bits.ones s.width : Int) < value
      · simp [hchecked, hover, Overflow.adapt, Overflow.adapt?, bind, Except.bind]
      · simp [hchecked, hover, Overflow.adapt, Overflow.adapt?, bind, Except.bind, pure,
          Except.pure]
    | corrupt =>
      simp [hchecked, Overflow.adapt, Overflow.adapt?, bind, Except.bind, pure, Except.pure]
    | saturate =>
      have hmin : Overflow.saturate.adapt? s.width value =
          some (min value (Bits.ones s.width)) := by
        simp only [Overflow.adapt?, Option.some.injEq]
        split
        · rw [min_eq_right (by omega)]
        · rw [min_eq_left (by omega)]
      simp [hchecked, Overflow.adapt, hmin, bind, Except.bind, pure, Except.pure]
  · simp [hchecked, bind, Except.bind, pure, Except.pure]

/-- A slot without a policy problem refuses only with the excess of its own field. -/
theorem pass_error (s : Slot) (value : Int) (e : Error) (h : s.pass value = .error e) :
    e = .excess (.ofLetter s.name) value (.int s.width) := by
  unfold pass at h
  split at h
  · split at h
    · split at h
      · exact (Except.error.inj h).symm
      · cases h
    · cases h
    · cases h
    · cases h
  · cases h

end Slot

/-- The values that pass all slots, or the first refusal. -/
def passAll (slots : List Slot) (values : List Int) : Except Error (List Int) :=
  (slots.zip values).mapM fun pair => pair.1.pass pair.2

theorem passAll_cons (s : Slot) (slots : List Slot) (v : Int) (values : List Int) :
    passAll (s :: slots) (v :: values) =
      s.pass v >>= fun u => (passAll slots values).map fun us => u :: us := by
  unfold passAll
  rw [List.zip_cons_cons, mapM_cons]

/-- A value that stands for each integer of a list. -/
def Stands (values : List Value) (integers : List Int) : Prop :=
  List.Forall₂ (fun v n => v.toInt? = some n) values integers

/-- A value that each integer of a list is got from when it is asked. -/
def Gives (values : List Value) (integers : List Int) : Prop :=
  List.Forall₂ (fun v n => v.index? = some n) values integers

theorem index?_of_toInt? {v : Value} {n : Int} (h : v.toInt? = some n) : v.index? = some n := by
  cases v with
  | proxy m shown => cases h
  | _ => exact h

theorem Stands.gives {values : List Value} {integers : List Int} (h : Stands values integers) :
    Gives values integers :=
  h.imp fun _ _ => index?_of_toInt?

theorem integer_eq_ok_iff (v : Value) (n : Int) : v.integer = .ok n ↔ v.index? = some n := by
  unfold Value.integer
  cases h : v.index? with
  | none => simp
  | some m => simp

theorem operand_eq_ok_iff (v : Value) (n : Int) : v.operand = .ok n ↔ v.toInt? = some n := by
  unfold Value.operand
  cases h : v.toInt? with
  | none => simp
  | some m => simp

theorem integer_eq_ok (v : Value) (n : Int) (h : v.toInt? = some n) : v.integer = .ok n :=
  (integer_eq_ok_iff v n).mpr (index?_of_toInt? h)

theorem integer_eq_error {v : Value} {e : Error} (h : v.integer = .error e) : e = .wrongKind := by
  unfold Value.integer at h
  split at h
  · cases h
  · cases h
    rfl

theorem operand_eq_ok (v : Value) (n : Int) (h : v.toInt? = some n) : v.operand = .ok n :=
  (operand_eq_ok_iff v n).mpr h

theorem operand_of_toInt?_eq_none {v : Value} (h : v.toInt? = none) :
    v.operand = .error .wrongKind := by
  rw [Value.operand, h]

theorem operand_eq_error {v : Value} {e : Error} (h : v.operand = .error e) : e = .wrongKind := by
  unfold Value.operand at h
  split at h
  · cases h
  · cases h
    rfl

theorem mapM_integer_eq_ok_iff (values : List Value) (integers : List Int) :
    values.mapM Value.integer = .ok integers ↔ Gives values integers := by
  rw [mapM_eq_ok_iff, Gives]
  simp only [integer_eq_ok_iff]

theorem mapM_storeValue (slots : List Slot) {values : List Value} {integers : List Int}
    (h : Gives values integers) :
    (slots.zip values).mapM (fun pair => pair.1.storeValue pair.2) =
      (passAll slots integers).map fun us => List.zipWith Slot.place slots us := by
  induction slots generalizing values integers with
  | nil => rfl
  | cons s slots ih =>
    cases h with
    | nil => rfl
    | @cons v n values integers hv hrest =>
      rw [List.zip_cons_cons, mapM_cons, passAll_cons, ih hrest]
      have hstore : s.storeValue v = (s.pass n).map s.place := by
        unfold Slot.storeValue
        rw [(integer_eq_ok_iff v n).mpr hv, ok_bind, Slot.store_eq]
      rw [hstore]
      cases s.pass n with
      | error e => rfl
      | ok u => cases passAll slots integers <;> rfl

namespace Layout

/-- The integer that the kept bits, the literals and the values of the slots make up. -/
def assemble (l : Layout) (kept : Int) (slots : List Slot) (values : List Int) : Int :=
  Bits.land
    (Bits.lor kept
      ((List.zipWith Slot.place slots values).foldl Bits.lor (l.template.literalValue : Int)))
    (Bits.ones l.width)

theorem bit_assemble (l : Layout) (kept : Int) (slots : List Slot) (values : List Int)
    (b : Nat) :
    Bits.bit (l.assemble kept slots values) b = true ↔
      b < l.width ∧ (Bits.bit kept b = true ∨ l.template.literalValue.testBit b = true ∨
        ∃ piece ∈ List.zipWith Slot.place slots values, Bits.bit piece b = true) := by
  unfold assemble
  rw [Bits.bit_land, Bits.bit_lor, Bits.bit_foldl_lor, Bits.bit_natCast, Bits.bit_natCast,
    Bits.testBit_ones]
  simp only [Bool.and_eq_true, Bool.or_eq_true, decide_eq_true_eq, List.any_eq_true]
  exact and_comm

theorem combine_eq (l : Layout) (slots : List Slot) {values : List Value} {integers : List Int}
    (h : Gives values integers) :
    l.combine slots values = (passAll slots integers).map (l.assemble 0 slots) := by
  unfold combine
  rw [mapM_storeValue slots h]
  cases passAll slots integers with
  | error e => rfl
  | ok us =>
    rw [map_ok, map_ok, ok_bind]
    refine congrArg Except.ok (Bits.eq_of_bit_eq fun b => ?_)
    simp [assemble]

/-- The bits that a replacement keeps of its target. -/
def keptOf (l : Layout) (target : Int) : Int := Bits.land target l.template.placeholderMask

@[simp] theorem keptOf_zero (l : Layout) : l.keptOf 0 = 0 := by
  apply Bits.eq_of_bit_eq
  intro b
  simp [keptOf]

theorem bit_keptOf_iff (l : Layout) (target : Int) (b : Nat) :
    Bits.bit (l.keptOf target) b = true ↔ Bits.bit target b = true ∧
      ∃ p, l.template.cells[p]? = some .placeholder ∧ p + b + 1 = l.width := by
  unfold keptOf
  rw [Bits.bit_land, Bits.bit_natCast, Bool.and_eq_true, Template.placeholderMask,
    testBit_maskOf_iff, Template.length_cells]
  refine and_congr_right fun _ => ?_
  constructor
  · intro h
    obtain ⟨p, cell, hcell, hkind, hsum⟩ := h
    cases cell with
    | placeholder => exact ⟨p, hcell, hsum⟩
    | field a => simp [Cell.isPlaceholder] at hkind
    | literal b => simp [Cell.isPlaceholder] at hkind
  · intro h
    obtain ⟨p, hcell, hsum⟩ := h
    exact ⟨p, _, hcell, rfl, hsum⟩

theorem replace_eq (l : Layout) (slots : List Slot) {target : Value} {t : Int}
    {values : List Value} {integers : List Int} (ht : target.index? = some t)
    (h : Gives values integers) :
    l.replace slots target values =
      (passAll slots integers).map (l.assemble (l.keptOf t) slots) := by
  unfold replace
  rw [(integer_eq_ok_iff target t).mpr ht, ok_bind, l.combine_eq slots h]
  cases passAll slots integers with
  | error e => rfl
  | ok us =>
    rw [map_ok, map_ok, ok_bind]
    refine congrArg Except.ok (Bits.eq_of_bit_eq fun b => ?_)
    -- The kept bits lie inside the template, so they survive the cut.
    have hkept : Bits.bit (l.keptOf t) b = true → b < l.width := by
      intro hbit
      obtain ⟨_, p, _, hsum⟩ := (l.bit_keptOf_iff t b).mp hbit
      omega
    change Bits.bit (Bits.lor (l.keptOf t) (l.assemble 0 slots us)) b = _
    rw [Bool.eq_iff_iff, Bits.bit_lor, Bool.or_eq_true, bit_assemble, bit_assemble, Bits.bit_zero]
    constructor
    · intro hbit
      rcases hbit with hk | ⟨hb, h0 | hrest⟩
      · exact ⟨hkept hk, Or.inl hk⟩
      · cases h0
      · exact ⟨hb, Or.inr hrest⟩
    · intro hbit
      obtain ⟨hb, hk | hrest⟩ := hbit
      · exact Or.inl hk
      · exact Or.inr ⟨hb, Or.inr hrest⟩

end Layout

end BitTemplate
