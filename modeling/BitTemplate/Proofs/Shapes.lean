import BitTemplate.Proofs.Reading
import BitTemplate.Proofs.Session
import Mathlib.Tactic.IntervalCases

/-!
The shapes of extracted fields. A single bit is a truth value, unless a least shape asks for more.
All other fields are integers, in the least width that is allowed, holds the field and is not below
the least shape. Widths beyond the widest shape are refused, with the width in the message; a width
with too many digits cannot be written there, and another error takes its place. No field of a
template is that wide, and what an extraction gives for a field is a value of its shape.
-/
namespace BitTemplate

open Failure

/-- The exponent of a power of two that is not below a number is at least its logarithm. -/
theorem Bits.ceilLog2_le_iff {n : Nat} (hn : 1 ≤ n) (j : Nat) : ceilLog2 n ≤ j ↔ n ≤ 2 ^ j := by
  rw [ceilLog2, bitLength_le_iff]
  omega

namespace Shape

/-- Whether a least shape lets a single bit be a truth value. -/
def Plain (minimum : Option Shape) : Prop := minimum = none ∨ minimum = some .boolean

/-- The widths that an integer of some bits may have: standard ones, unless the precision is exact,
and none below the bits or below a least shape that is not boolean. -/
structure Admits (precision : Precision) (minimum : Option Shape) (n w : Nat) : Prop where
  standard : precision = .standard → w ∈ standardWidths
  wide : n ≤ w
  least : ∀ v hv, minimum = some (.unsigned v hv) → v ≤ w

/-- The width that is refused where no shape holds some bits: their number, rounded up to a power
of two unless the precision is exact. -/
def Refused (n k : Nat) : Precision → Prop
  | .exact => k = n
  | .standard => IsLeast {p | n ≤ p ∧ ∃ j, p = 2 ^ j} k

/-- How the shape for some bits is chosen. -/
structure Chosen (precision : Precision) (minimum : Option Shape) (n : Nat)
    (shape : Except Error Shape) : Prop where
  boolean_iff : shape = .ok .boolean ↔ n = 1 ∧ Plain minimum
  unsigned_iff : ∀ w hw, shape = .ok (.unsigned w hw) ↔
    ¬ (n = 1 ∧ Plain minimum) ∧ IsLeast {w | Admits precision minimum n w} w
  refused_iff : (∃ e, shape = .error e) ↔ 128 < n
  refusal : ∀ e, shape = .error e → ∃ k : Nat, Refused n k precision ∧ e = .shapeWidthRange k ∧
    e.errorClass = if k < 10 ^ Text.digitLimit then .type else .value

/-- Whether a value is one of a shape, as a field of some bits gives it: a truth value if the shape
is boolean, and otherwise an integer in the range of the bits and so in that of the shape. -/
structure Holds (shape : Shape) (n : Nat) (item : Value) : Prop where
  bool_iff : (∃ b, item = .bool b) ↔ shape = .boolean
  range : shape ≠ .boolean →
    ∃ v : Int, item = .int v ∧ 0 ≤ v ∧ v < 2 ^ n ∧ 2 ^ n ≤ 2 ^ shape.width

theorem mem_standardWidths_iff (w : Nat) :
    w ∈ standardWidths ↔ ∃ j, 3 ≤ j ∧ j ≤ 7 ∧ w = 2 ^ j := by
  constructor
  · intro hw
    simp only [standardWidths, List.mem_cons, List.not_mem_nil, or_false] at hw
    rcases hw with rfl | rfl | rfl | rfl | rfl
    · exact ⟨3, by omega, by omega, rfl⟩
    · exact ⟨4, by omega, by omega, rfl⟩
    · exact ⟨5, by omega, by omega, rfl⟩
    · exact ⟨6, by omega, by omega, rfl⟩
    · exact ⟨7, by omega, by omega, rfl⟩
  · rintro ⟨j, hlow, hhigh, rfl⟩
    interval_cases j <;> decide

/-- The number of bits as a precision counts it. -/
def rounded (n : Nat) : Precision → Nat
  | .exact => n
  | .standard => standardWidth n

theorem standardWidth_eq (n : Nat) : standardWidth n = 2 ^ max 3 (Bits.ceilLog2 n) := by
  have hmono : Monotone fun j => 2 ^ j := pow_right_mono₀ (by omega)
  rw [standardWidth, Nat.one_shiftLeft]
  exact (hmono.map_max (a := 3)).symm

section Width

variable {n : Nat} (hn : 1 ≤ n)

include hn

/-- An allowed width is not below the rounded bits if it is not below the bits. -/
theorem rounded_le_iff {precision : Precision} {w : Nat}
    (hw : precision = .standard → w ∈ standardWidths) : rounded n precision ≤ w ↔ n ≤ w := by
  cases precision with
  | exact => exact Iff.rfl
  | standard =>
    obtain ⟨j, hlow, _, rfl⟩ := (mem_standardWidths_iff w).mp (hw rfl)
    rw [rounded, standardWidth_eq, Nat.pow_le_pow_iff_right (by omega), max_le_iff,
      Bits.ceilLog2_le_iff hn]
    exact and_iff_right hlow

theorem rounded_standard_mem (hle : n ≤ 128) : rounded n .standard ∈ standardWidths := by
  have hlog := (Bits.ceilLog2_le_iff hn 7).mpr hle
  rw [mem_standardWidths_iff]
  exact ⟨_, le_max_left _ _, max_le (by omega) hlog, standardWidth_eq n⟩

theorem le_rounded (precision : Precision) : n ≤ rounded n precision := by
  cases precision with
  | exact => exact le_rfl
  | standard =>
    have hlog := (Bits.ceilLog2_le_iff hn _).mp (le_max_right 3 (Bits.ceilLog2 n))
    rwa [rounded, standardWidth_eq]

/-- Bits that no shape holds are refused in their rounded number. -/
theorem refused_rounded (hwide : 128 < n) (precision : Precision) :
    Refused n (rounded n precision) precision := by
  cases precision with
  | exact => exact rfl
  | standard =>
    have hlog : ¬ Bits.ceilLog2 n ≤ 7 := by
      rw [Bits.ceilLog2_le_iff hn]
      omega
    have hpower : rounded n .standard = 2 ^ Bits.ceilLog2 n := by
      rw [rounded, standardWidth_eq, max_eq_right (by omega)]
    rw [hpower]
    refine ⟨⟨(Bits.ceilLog2_le_iff hn _).mp le_rfl, _, rfl⟩, ?_⟩
    rintro _ ⟨hk, j, rfl⟩
    exact Nat.pow_le_pow_right (by omega) ((Bits.ceilLog2_le_iff hn j).mpr hk)

end Width

/-- The width of a least shape that is not boolean, or none at all. -/
def floor (minimum : Option Shape) : Nat := (floor? minimum).getD 0

theorem floor?_eq_none_iff (minimum : Option Shape) : floor? minimum = none ↔ Plain minimum := by
  unfold floor? Plain
  rcases minimum with _ | _ | ⟨w, hw⟩ <;> simp

theorem floor_le_iff (minimum : Option Shape) (w : Nat) :
    floor minimum ≤ w ↔ ∀ v hv, minimum = some (.unsigned v hv) → v ≤ w := by
  unfold floor floor?
  rcases minimum with _ | _ | ⟨u, hu⟩
  · simp
  · simp
  · constructor
    · rintro h v hv heq
      cases heq
      exact h
    · intro h
      exact h u hu rfl

theorem floor_le_widest (minimum : Option Shape) : floor minimum ≤ 128 := by
  rw [floor_le_iff]
  intro v hv _
  exact hv.2

theorem ofWidth_eq_unsigned_iff (k w : Nat) (hw : 1 ≤ w ∧ w ≤ 128) :
    ofWidth k = .ok (.unsigned w hw) ↔ k = w := by
  unfold ofWidth unsigned?
  by_cases hk : 1 ≤ (k : Int) ∧ (k : Int) ≤ 128
  · simp [hk]
  · rw [dif_neg hk]
    refine iff_of_false ?_ (by omega)
    intro h
    cases h

theorem ofWidth_eq_error_iff {k : Nat} (hk : 1 ≤ k) (e : Error) :
    ofWidth k = .error e ↔ 128 < k ∧ e = .shapeWidthRange k := by
  unfold ofWidth unsigned?
  by_cases hle : 1 ≤ (k : Int) ∧ (k : Int) ≤ 128
  · rw [dif_pos hle]
    refine iff_of_false nofun ?_
    omega
  · rw [dif_neg hle, Except.error.injEq, eq_comm]
    exact (and_iff_right (by omega)).symm

/-- A shape is boolean, or the integer shape of the rounded bits or of the least shape. -/
theorem forField_eq {n : Nat} (precision : Precision) (minimum : Option Shape) :
    (n = 1 ∧ Plain minimum → forField n precision minimum = .ok .boolean) ∧
      (¬ (n = 1 ∧ Plain minimum) →
        forField n precision minimum =
          ofWidth (max (rounded n precision) (floor minimum) : Nat)) := by
  have hcond : ((n : Int) = 1 ∧ (floor? minimum).isNone) ↔ n = 1 ∧ Plain minimum := by
    rw [Option.isNone_iff_eq_none, floor?_eq_none_iff]
    exact and_congr_left fun _ => by omega
  unfold forField
  constructor
  · intro h
    rw [if_pos (hcond.mpr h)]
  · intro h
    rw [if_neg fun h' => h (hcond.mp h')]
    unfold forBits floor rounded
    cases hfloor : floor? minimum with
    | none => cases precision <;> simp
    | some w => cases precision <;> simp

theorem errorClass_shapeWidthRange (k : Nat) :
    (Error.shapeWidthRange k).errorClass =
      if k < 10 ^ Text.digitLimit then .type else .value := by
  have hlong : (Error.shapeWidthRange k).isUnwritable = decide (¬ k < 10 ^ Text.digitLimit) := by
    simp [Error.isUnwritable, Error.numbers, Text.isLong, Nat.pow_eq]
  rw [Error.errorClass, hlong]
  by_cases hk : k < 10 ^ Text.digitLimit
  · simp [hk, Error.causeClass]
  · simp [hk]

section Choice

variable {n : Nat} (hn : 1 ≤ n) {precision : Precision} {minimum : Option Shape}
  (hstandard : precision = .standard → ∀ s ∈ minimum, s.isStandard = true)

include hn

theorem admits_iff (w : Nat) : Admits precision minimum n w ↔
    (precision = .standard → w ∈ standardWidths) ∧
      max (rounded n precision) (floor minimum) ≤ w := by
  constructor
  · rintro ⟨hw, hwide, hleast⟩
    exact ⟨hw, max_le ((rounded_le_iff hn hw).mpr hwide) ((floor_le_iff minimum w).mpr hleast)⟩
  · rintro ⟨hw, hmax⟩
    rw [max_le_iff, rounded_le_iff hn hw, floor_le_iff] at hmax
    exact ⟨hw, hmax.1, hmax.2⟩

include hstandard

/-- The larger of the rounded bits and the least shape is the least width that is allowed. -/
theorem isLeast_admits (hle : n ≤ 128) :
    IsLeast {w | Admits precision minimum n w} (max (rounded n precision) (floor minimum)) := by
  constructor
  · refine (admits_iff hn _).mpr ⟨?_, le_rfl⟩
    rintro rfl
    rcases max_choice (rounded n .standard) (floor minimum) with hmax | hmax
    · rw [hmax]
      exact rounded_standard_mem hn hle
    · have hpos := hn.trans (le_rounded hn .standard)
      rw [hmax]
      rcases minimum with _ | _ | ⟨v, hv⟩
      · have hzero : floor none = 0 := rfl
        omega
      · have hzero : floor (some .boolean) = 0 := rfl
        omega
      · exact List.contains_iff_mem.mp (hstandard rfl (.unsigned v hv) rfl)
  · intro w hw
    exact ((admits_iff hn w).mp hw).2

theorem chosen_forField : Chosen precision minimum n (forField n precision minimum) := by
  obtain ⟨hboolean, hunsigned⟩ := forField_eq (n := n) precision minimum
  have hpos := hn.trans ((le_rounded hn precision).trans (le_max_left _ (floor minimum)))
  have hwidest : max (rounded n precision) (floor minimum) ≤ 128 ↔ n ≤ 128 := by
    rw [max_le_iff, rounded_le_iff hn fun _ => by decide]
    exact and_iff_left (floor_le_widest minimum)
  by_cases hplain : n = 1 ∧ Plain minimum
  · rw [hboolean hplain]
    refine ⟨iff_of_true rfl hplain, ?_, ?_, nofun⟩
    · intro w hw
      exact iff_of_false nofun fun h => h.1 hplain
    · exact iff_of_false nofun (by omega)
  · rw [hunsigned hplain]
    refine ⟨iff_of_false (ofWidth_ne_boolean _) hplain, ?_, ?_, ?_⟩
    · intro w hw
      rw [ofWidth_eq_unsigned_iff]
      constructor
      · rintro rfl
        exact ⟨hplain, isLeast_admits hn hstandard (hwidest.mp hw.2)⟩
      · rintro ⟨_, hleast⟩
        exact (isLeast_admits hn hstandard (hleast.1.wide.trans hw.2)).unique hleast
    · simp only [ofWidth_eq_error_iff hpos, exists_and_left, exists_eq, and_true]
      omega
    · intro e he
      obtain ⟨hwide, rfl⟩ := (ofWidth_eq_error_iff hpos e).mp he
      have hmax : max (rounded n precision) (floor minimum) = rounded n precision := by
        have hfloor := floor_le_widest minimum
        have hrounded := le_rounded hn precision
        omega
      rw [hmax]
      exact ⟨_, refused_rounded hn (by omega) precision, rfl, errorClass_shapeWidthRange _⟩

end Choice

theorem forValue_int {precision minimum : Value} {p : Precision} {least? : Option Shape}
    (hprecision : Precision.ofValue precision = .ok p)
    (hminimum : least minimum (.precision p) = .ok least?) (n : Int) :
    forValue (.int n) precision minimum = forField n p least? := by
  unfold forValue
  simp only [hprecision, hminimum]

/-- What may be a least shape under a precision. -/
theorem least_eq_ok_iff (precision : Precision) (minimum : Option Shape) :
    least ((minimum.map Value.shape).getD .none) (.precision precision) = .ok minimum ↔
      (precision = .standard → ∀ s ∈ minimum, s.isStandard = true) := by
  constructor
  · rintro h rfl s rfl
    exact isStandard_of_least h
  · intro h
    cases minimum with
    | none => rfl
    | some s =>
      cases precision with
      | exact => rfl
      | standard => exact if_pos (h rfl s rfl)

/-- The bits of a field make a value of the shape that is chosen for it. -/
theorem holds_fromBits {n : Nat} (hn : 1 ≤ n) {precision : Precision} {minimum : Option Shape}
    (hstandard : precision = .standard → ∀ s ∈ minimum, s.isStandard = true) {shape : Shape}
    (h : forField n precision minimum = .ok shape) {v : Int} (h0 : 0 ≤ v) (hlt : v < 2 ^ n) :
    Holds shape n (shape.fromBits (.int v)) := by
  cases shape with
  | boolean => exact ⟨iff_of_true ⟨_, rfl⟩ rfl, fun hne => absurd rfl hne⟩
  | unsigned w hw =>
    obtain ⟨_, hleast⟩ := ((chosen_forField hn hstandard).unsigned_iff w hw).mp h
    refine ⟨iff_of_false ?_ nofun, fun _ => ⟨v, rfl, h0, hlt, ?_⟩⟩
    · rintro ⟨b, hb⟩
      cases hb
    · exact Nat.pow_le_pow_right (by omega) hleast.1.wide

end Shape

namespace Extraction

/-- The values of an extraction are values of the shapes of its fields. -/
theorem holds_interpret {x : Extraction} {precision : Precision} {minimum : Option Shape}
    (hstandard : precision = .standard → ∀ s ∈ minimum, s.isStandard = true)
    (h : x.layout.shaped precision minimum = .ok x.shaped) (v : Int) :
    List.Forall₂ (fun pair item =>
      Shape.forField (x.layout.template.cells.count (.field pair.1.name)) precision minimum =
          .ok pair.2 ∧
        pair.2.Holds (x.layout.template.cells.count (.field pair.1.name)) item)
      x.shaped (x.interpret v) := by
  rw [interpret, List.forall₂_map_right_iff, List.forall₂_same]
  intro pair hpair
  obtain ⟨f, hf, hshape⟩ := exists_of_mem_mapM h hpair
  obtain ⟨shape, hforField, rfl⟩ := (map_eq_ok_iff _ _ _).mp hshape
  obtain ⟨hpos, _⟩ := x.layout.width_of_mem_fields hf
  obtain ⟨h0, hlt⟩ := f.extract_bounds v
  have hwidth : f.width = x.layout.template.cells.count (.field f.name) := by
    obtain ⟨a, ha, rfl⟩ := (x.layout.mem_fields_iff f).mp hf
    exact x.layout.template.width_field a ha
  rw [← hwidth]
  exact ⟨hforField, Shape.holds_fromBits hpos hstandard hforField h0 hlt⟩

end Extraction

/-- Every number of bits gets the least shape that is admissible for it, or is refused if it is
above the widest shape; the refusal is an error of kind, unless the refused width cannot be written.
All least shapes are allowed with exact precision, and the standard ones with standard precision.
Hence an extraction, which can be made of every template without literals, gives values of the
shapes of its fields. -/
theorem least_shapes_hold_values (p : Precision) (m : Option Shape) :
    (∀ (n : Nat) (precision minimum : Value), 1 ≤ n → Precision.ofValue precision = .ok p →
      Shape.least minimum (.precision p) = .ok m →
      Shape.Chosen p m n (Shape.forValue (.int n) precision minimum)) ∧
    (Shape.least ((m.map Value.shape).getD .none) (.precision p) = .ok m ↔
      (p = .standard → ∀ s ∈ m, s.isStandard = true)) ∧
    ∀ (s : Extraction.Settings) (fallback : Option String) (engine : Engine) (template : Template),
      Engine.select s.engine fallback = .ok engine →
      Template.ofValue s.template s.base = .ok template →
      (∀ cell ∈ template.cells, cell.isLiteral = false) →
      Precision.ofValue s.precision = .ok p → Shape.least s.minimum (.precision p) = .ok m →
      ∃ x, Extraction.make s fallback = .ok x ∧
        x.shaped.map (fun pair => pair.1.name) = template.names ∧
        ∀ (value : Value) (v : Int), value.toInt? = some v → ∃ items,
          x.run value = .ok (if s.named.isTrue then .record (template.names.zip items)
            else .tuple items) ∧
          List.Forall₂ (fun pair item =>
            Shape.forValue (.int (template.cells.count (.field pair.1.name))) s.precision
                s.minimum = .ok pair.2 ∧
              pair.2.Holds (template.cells.count (.field pair.1.name)) item) x.shaped items := by
  have hlegal : ∀ {minimum : Value}, Shape.least minimum (.precision p) = .ok m →
      (p = .standard → ∀ s ∈ m, s.isStandard = true) := by
    rintro minimum h rfl s rfl
    exact Shape.isStandard_of_least h
  refine ⟨?_, Shape.least_eq_ok_iff p m, ?_⟩
  · intro n precision minimum hn hprecision hminimum
    rw [Shape.forValue_int hprecision hminimum]
    exact Shape.chosen_forField hn (hlegal hminimum)
  · intro s fallback engine template hengine htemplate hliterals hprecision hminimum
    obtain ⟨x, hx, hlayout, hnamed⟩ :=
      Extraction.exists_make hengine htemplate hliterals hprecision hminimum
    obtain ⟨_, _, p', m', _, _, _, hprecision', hminimum', _, hshaped, _, _⟩ :=
      (Extraction.make_eq_ok_iff s fallback x).mp hx
    obtain rfl : p = p' := Except.ok.inj (hprecision.symm.trans hprecision')
    obtain rfl : m = m' := Except.ok.inj (hminimum.symm.trans hminimum')
    refine ⟨x, hx, ?_, ?_⟩
    · rw [← Layout.names_eq ⟨template⟩, ← hlayout, Layout.names,
        ← Extraction.fields_of_shaped hshaped, List.map_map]
      rfl
    · intro value v hv
      refine ⟨x.interpret v, ?_, ?_⟩
      · rw [Extraction.run, Extraction.values_of_make hx hv, map_ok, Extraction.label,
          Extraction.names, Layout.names_eq, hlayout, hnamed]
      · have hitems := Extraction.holds_interpret (hlegal hminimum) hshaped v
        rw [hlayout] at hitems
        simpa only [Shape.forValue_int hprecision hminimum] using hitems

theorem least_shapes_hold_values_mixed :
    Shape.forValue (.int 12) (.precision .standard) (.shape (.unsigned 8 (by decide))) =
        .ok (.unsigned 16 (by decide)) ∧
      (∃ e, Shape.forValue (.int 129) (.precision .exact) .none = .error e) ∧
      ∃ x template items, Template.ofValue (.text "aab.bacd") (.base .binary) = .ok template ∧
        Extraction.make ⟨.text "aab.bacd", .base .binary, .precision .exact, .none, .bool true,
          .none⟩ none = .ok x ∧
        x.run (.int (-3)) = .ok (.record (template.names.zip items)) ∧
        List.Forall₂ (fun (pair : Shape × Nat) item => pair.1.Holds pair.2 item)
          [(.unsigned 3 (by decide), 3), (.unsigned 2 (by decide), 2), (.boolean, 1), (.boolean, 1)]
          items := by
  obtain ⟨hrounded, _, _⟩ := least_shapes_hold_values .standard (some (.unsigned 8 (by decide)))
  obtain ⟨hchosen, _, hmade⟩ := least_shapes_hold_values .exact none
  refine ⟨?_, ?_, ?_⟩
  · refine ((hrounded 12 _ _ (by omega) rfl rfl).unsigned_iff 16 (by decide)).mpr ?_
    refine ⟨by omega, ⟨fun _ => by decide, by omega, ?_⟩, ?_⟩
    · intro v hv h
      cases h
      omega
    · rintro w ⟨hstandard, hwide, _⟩
      have hw := hstandard rfl
      simp only [standardWidths, List.mem_cons, List.not_mem_nil, or_false] at hw
      omega
  · exact (hchosen 129 _ _ (by omega) rfl rfl).refused_iff.mpr (by omega)
  · have heval : (Template.ofValue (.text "aab.bacd") (.base .binary)).map (fun t =>
        (t.cells.all fun cell => !cell.isLiteral, t.names.map fun a => t.cells.count (.field a))) =
        .ok (true, [3, 2, 1, 1]) := by rfl
    have hshapes : (Extraction.make ⟨.text "aab.bacd", .base .binary, .precision .exact, .none,
        .bool true, .none⟩ none).map (fun x => x.shaped.map Prod.snd) =
        .ok [.unsigned 3 (by decide), .unsigned 2 (by decide), .boolean, .boolean] := by rfl
    rw [map_eq_ok_iff] at heval
    obtain ⟨template, htemplate, hvalues⟩ := heval
    simp only [Prod.mk.injEq, List.all_eq_true, Bool.not_eq_true'] at hvalues
    obtain ⟨hliterals, hcounts⟩ := hvalues
    obtain ⟨x, hx, hnames, hrun⟩ := hmade ⟨.text "aab.bacd", .base .binary, .precision .exact,
      .none, .bool true, .none⟩ none .compiled template rfl htemplate hliterals rfl rfl
    obtain ⟨items, hitems, hholds⟩ := hrun (.int (-3)) (-3) rfl
    have hpairs : x.shaped.map (fun pair => (pair.2, template.cells.count (.field pair.1.name))) =
        [(.unsigned 3 (by decide), 3), (.unsigned 2 (by decide), 2), (.boolean, 1),
          (.boolean, 1)] := by
      rw [hx, map_ok, Except.ok.injEq] at hshapes
      rw [← hnames, List.map_map] at hcounts
      rw [← List.zip_map', hshapes]
      exact congrArg _ hcounts
    refine ⟨x, template, items, htemplate, hx, hitems, ?_⟩
    rw [← hpairs, List.forall₂_map_left_iff]
    exact hholds.imp fun _ _ h => h.2

/-- The largest number that can be written is rounded up to a power of two that cannot, so that the
refusal of its shape is no error of kind, as it is where nothing is rounded. -/
theorem rounded_width_unwritable :
    128 < 10 ^ Text.digitLimit - 1 ∧
      (∃ e, Shape.forValue (.int (10 ^ Text.digitLimit - 1 : Nat)) (.precision .standard) .none =
        .error e ∧ e.errorClass = .value) ∧
      ∃ e, Shape.forValue (.int (10 ^ Text.digitLimit - 1 : Nat)) (.precision .exact) .none =
        .error e ∧ e.errorClass = .type := by
  have hlarge : 10 ^ 3 ≤ 10 ^ Text.digitLimit := Nat.pow_le_pow_right (by decide) (by decide)
  have heven : 2 ∣ 10 ^ Text.digitLimit := dvd_pow (by decide) (by decide)
  have hchosen (p : Precision) : Shape.Chosen p none (10 ^ Text.digitLimit - 1)
      (Shape.forValue (.int (10 ^ Text.digitLimit - 1 : Nat)) (.precision p) .none) := by
    rw [Shape.forValue_int (p := p) rfl rfl]
    exact Shape.chosen_forField (by omega) (by simp)
  refine ⟨by omega, ?_, ?_⟩
  · obtain ⟨e, he⟩ := (hchosen .standard).refused_iff.mpr (by omega)
    obtain ⟨k, ⟨⟨hk, j, rfl⟩, _⟩, _, hclass⟩ := (hchosen .standard).refusal e he
    -- The limit is even, so a power of two that reaches the number below it reaches the limit.
    have hlong : ¬ 2 ^ j < 10 ^ Text.digitLimit := by
      cases j with
      | zero => omega
      | succ j =>
        rw [pow_succ] at hk ⊢
        omega
    rw [if_neg hlong] at hclass
    exact ⟨e, he, hclass⟩
  · obtain ⟨e, he⟩ := (hchosen .exact).refused_iff.mpr (by omega)
    obtain ⟨k, hk, _, hclass⟩ := (hchosen .exact).refusal e he
    have hshort : k < 10 ^ Text.digitLimit := by
      rw [Shape.Refused] at hk
      omega
    rw [if_pos hshort] at hclass
    exact ⟨e, he, hclass⟩

end BitTemplate
