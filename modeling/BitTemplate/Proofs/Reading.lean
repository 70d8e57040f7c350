import BitTemplate.Proofs.Engines

/-!
Extraction bit by bit. The segments of a field, the code that is generated for them and the test
of a one-bit field all read the same number: the bits at the positions of the field, from left to
right. An extraction returns these numbers for its letters, whatever shapes they have, because
only a field of one bit is ever turned into a truth value.
-/
namespace BitTemplate

open Failure

namespace Shape

theorem ofWidth_ne_boolean (n : Int) : ofWidth n ≠ .ok .boolean := by
  unfold ofWidth unsigned?
  split
  · rename_i s hs
    split at hs
    · cases hs
      simp
    · cases hs
  · simp

/-- Only a single bit has the boolean shape. -/
theorem width_of_forField_boolean {width : Int} {precision : Precision} {minimum : Option Shape}
    (h : forField width precision minimum = .ok .boolean) : width = 1 := by
  unfold forField at h
  split at h
  · rename_i hone
    exact hone.1
  · unfold forBits at h
    cases precision with
    | exact => exact absurd h (ofWidth_ne_boolean _)
    | standard =>
      simp only at h
      split at h
      · cases h
      · exact absurd h (ofWidth_ne_boolean _)

/-- The shape of a field keeps the number that its bits make. -/
theorem toInt?_fromBits {width : Nat} {precision : Precision} {minimum : Option Shape}
    {shape : Shape} (h : forField width precision minimum = .ok shape) {n : Int} (h0 : 0 ≤ n)
    (hn : n < 2 ^ width) : (shape.fromBits (.int n)).toInt? = some n := by
  cases shape with
  | unsigned w hw => rfl
  | boolean =>
    have hwidth : width = 1 := by
      have := width_of_forField_boolean h
      omega
    subst hwidth
    have hbit : n = 0 ∨ n = 1 := by omega
    rcases hbit with rfl | rfl
    · rfl
    · rfl

end Shape

namespace Layout

theorem map_fields {α : Type} (l : Layout) (g : Field → α) (k : Letter → α)
    (h : ∀ a ha, g (l.template.field a ha) = k a) : l.fields.map g = l.template.names.map k := by
  unfold fields
  rw [List.map_map, ← List.attach_map_val (l := l.template.names) (f := k)]
  exact List.map_congr_left fun a _ => h a.1 a.2

/-- The extracted values stand for the numbers at the positions of the letters. -/
theorem stands_fromBits {l : Layout} {precision : Precision} {minimum : Option Shape}
    {shaped : List (Field × Shape)} (h : l.shaped precision minimum = .ok shaped) (v : Int) :
    Stands (shaped.map fun pair => pair.2.fromBits (.int (pair.1.extract v)))
      (l.template.names.map fun a =>
        (readPositions l.width (l.template.positions a) v : Int)) := by
  rw [← l.map_fields (fun f => f.extract v) _ fun a ha => Field.extract_eq_read _ v]
  unfold Layout.shaped at h
  rw [mapM_eq_ok_iff] at h
  unfold Stands
  rw [List.forall₂_map_left_iff, List.forall₂_map_right_iff]
  refine h.flip.imp ?_
  intro pair f hpair
  obtain ⟨shape, hshape, rfl⟩ := (map_eq_ok_iff _ _ _).mp hpair
  obtain ⟨h0, hlt⟩ := f.extract_bounds v
  exact Shape.toInt?_fromBits hshape h0 hlt

end Layout

namespace Extraction

/-- What an extraction returns: the values of its letters, in a record or a tuple. -/
theorem run_of_make {s : Settings} {fallback : Option String} {x : Extraction}
    (h : make s fallback = .ok x) (v : Int) :
    x.run (.int v) = .ok (if x.named then .record (x.layout.template.names.zip (x.interpret v))
        else .tuple (x.interpret v)) ∧
      Stands (x.interpret v) (x.layout.template.names.map fun a =>
        (readPositions x.layout.width (x.layout.template.positions a) v : Int)) := by
  obtain ⟨_, _, _, _, _, _, _, _, _, _, hshaped, _, _⟩ := (make_eq_ok_iff s fallback x).mp h
  refine ⟨?_, Layout.stands_fromBits hshaped v⟩
  unfold run
  rw [values_of_make h rfl, map_ok]
  unfold label names
  rw [Layout.names_eq]
  rfl

theorem interpret_congr {s : Settings} {fallback : Option String} {x : Extraction}
    (h : make s fallback = .ok x) {v v' : Int}
    (hmod : v' % 2 ^ x.layout.width = v % 2 ^ x.layout.width) :
    x.interpret v' = x.interpret v := by
  obtain ⟨hfields, _⟩ := make_engines h
  unfold interpret
  apply List.map_congr_left
  intro pair hpair
  have hmem : pair.1 ∈ x.layout.fields := by
    rw [← hfields]
    exact List.mem_map_of_mem hpair
  have hwidth := x.layout.templateWidth_of_mem hmem
  rw [← pair.1.extract_emod v', ← pair.1.extract_emod v, hwidth, hmod]

end Extraction

/-- The segments of a field, its generated code and its test read the bits at the positions of the
field from left to right. Hence an extraction can be made of every template without literals, and
returns these numbers for its letters in order of first occurrence. -/
theorem extraction_reads_positions :
    (∀ (f : Field) (v : Int),
      f.extract v = readPositions f.templateWidth f.positions v ∧
      (Bits.land v f.mask ≠ 0 ↔ readPositions f.templateWidth f.positions v ≠ 0)) ∧
    (∀ (f : Field) (source : Program.Name), ∃ e,
      Program.extract f.templateWidth f source none = .ok e ∧
      ∀ (env : Program.Env) (v : Int), env source = .int v →
        e.eval env = .ok (.int (readPositions f.templateWidth f.positions v))) ∧
    (∀ (s : Extraction.Settings) (fallback : Option String) (engine : Engine)
      (template : Template) (precision : Precision) (minimum : Option Shape),
      Engine.select s.engine fallback = .ok engine →
      Template.ofValue s.template s.base = .ok template →
      (∀ cell ∈ template.cells, cell.isLiteral = false) →
      Precision.ofValue s.precision = .ok precision →
      Shape.least s.minimum (.precision precision) = .ok minimum →
      ∃ x, Extraction.make s fallback = .ok x ∧ ∀ v : Int, ∃ items,
        x.run (.int v) = .ok (if s.named.isTrue then .record (template.names.zip items)
          else .tuple items) ∧
        Stands items (template.names.map fun a =>
          (readPositions template.width (template.positions a) v : Int)) ∧
        ∀ v' : Int, v' % 2 ^ template.width = v % 2 ^ template.width →
          x.run (.int v') = x.run (.int v)) := by
  refine ⟨?_, ?_, ?_⟩
  · intro f v
    have hread := f.extract_eq_read v
    refine ⟨hread, ?_⟩
    rw [f.land_mask_ne_zero_iff, hread]
    exact Nat.cast_ne_zero
  · intro f source
    obtain ⟨e, he, heval⟩ := Program.exists_extract_plain f source
    refine ⟨e, he, ?_⟩
    intro env v hv
    have hint : (env source).toInt? = some v := by
      rw [hv]
      rfl
    rw [heval env v hint, f.extract_eq_read]
    rfl
  · intro s fallback engine template precision minimum hengine htemplate hliterals hprecision
      hminimum
    obtain ⟨x, hx, hlayout, hnamed⟩ :=
      Extraction.exists_make hengine htemplate hliterals hprecision hminimum
    refine ⟨x, hx, ?_⟩
    intro v
    obtain ⟨hrun, hstands⟩ := Extraction.run_of_make hx v
    refine ⟨x.interpret v, ?_, ?_, ?_⟩
    · rw [hrun, hlayout, hnamed]
    · rw [hlayout] at hstands
      exact hstands
    · intro v' hmod
      have hsame : x.interpret v' = x.interpret v := by
        apply Extraction.interpret_congr hx
        rw [hlayout]
        exact hmod
      rw [hrun, (Extraction.run_of_make hx v').1, hsame]

/-- The three fields of an interleaved template in a negative integer. -/
theorem extraction_reads_positions_interleaved :
    ∃ x template items, Template.ofValue (.text "aab.bacc") (.base .binary) = .ok template ∧
      Extraction.make { template := .text "aab.bacc" } none = .ok x ∧
      x.run (.int (-3)) = .ok (.record (template.names.zip items)) ∧ Stands items [7, 3, 1] := by
  have heval : (Template.ofValue (.text "aab.bacc") (.base .binary)).map (fun t =>
      (t.cells.all fun cell => !cell.isLiteral,
        t.names.map fun a => (readPositions t.width (t.positions a) (-3) : Int))) =
      .ok (true, [7, 3, 1]) := by rfl
  rw [map_eq_ok_iff] at heval
  obtain ⟨template, htemplate, hvalues⟩ := heval
  simp only [Prod.mk.injEq, List.all_eq_true, Bool.not_eq_true'] at hvalues
  obtain ⟨hliterals, hnumbers⟩ := hvalues
  obtain ⟨x, hx, hrun⟩ := extraction_reads_positions.2.2 { template := .text "aab.bacc" } none
    .compiled template .standard none rfl htemplate hliterals rfl rfl
  obtain ⟨items, hitems, hstands, _⟩ := hrun (-3)
  rw [hnumbers] at hstands
  exact ⟨x, template, items, htemplate, hx, hitems, hstands⟩

end BitTemplate
