import BitTemplate.Proofs.Expansion
import BitTemplate.Proofs.Ownership
import BitTemplate.Value.Same

/-!
When layouts are the same. Layouts are compared by their widths, their fields and their literals,
and nothing is said of placeholders. But the cells of a template can be read back from these: a
position belongs to the field that lists it, or to a literal if the mask of literals has its bit,
and to a placeholder otherwise. So layouts are the same exactly if their templates have the same
cells, however these are written, and the hash of the cells serves for both.
-/
namespace BitTemplate

open Failure

/-- The cell at a position, from the fields and from the value and the mask of the literals. -/
def cellFrom (width : Nat) (fields : List Field) (value mask p : Nat) : Cell :=
  match (fields.find? fun f => p ∈ f.positions).map Field.name with
  | some a => .field a
  | none =>
    if mask.testBit (width - 1 - p) then .literal (value.testBit (width - 1 - p))
    else .placeholder

/-- The cells of a width, from left to right. -/
def cellsFrom (width : Nat) (fields : List Field) (value mask : Nat) : List Cell :=
  (List.range width).map (cellFrom width fields value mask)

namespace Field

theorem same_iff (f g : Field) : f.same g = true ↔ f = g := by
  rw [← key_injective.eq_iff]
  simp [same, and_assoc]

end Field

namespace Layout

variable (l m : Layout)

/-- A position is listed by no field but that of its letter. -/
theorem find?_positions {p : Nat} {cell : Cell} (h : l.template.cells[p]? = some cell) :
    (l.fields.find? fun f => p ∈ f.positions).map Field.name = cell.letter? := by
  have hlisted : ∀ f ∈ l.fields, p ∈ f.positions ↔ cell = .field f.name := by
    intro f hf
    obtain ⟨a, ha, rfl⟩ := (l.mem_fields_iff f).mp hf
    refine (mem_positionsFrom_iff a l.template.cells p).trans ?_
    rw [h, Option.some.injEq]
    rfl
  cases hfound : l.fields.find? fun f => p ∈ f.positions with
  | some f =>
    have hmem : p ∈ f.positions := by simpa using List.find?_some hfound
    rw [(hlisted f (List.mem_of_find?_eq_some hfound)).mp hmem]
    rfl
  | none =>
    rw [List.find?_eq_none] at hfound
    cases cell with
    | field a =>
      have ha : a ∈ l.template.names := (l.template.mem_names a).mpr (List.mem_of_getElem? h)
      have hf : l.template.field a ha ∈ l.fields := (l.mem_fields_iff _).mpr ⟨a, ha, rfl⟩
      exact absurd (decide_eq_true ((hlisted _ hf).mpr rfl)) (hfound _ hf)
    | placeholder => rfl
    | literal digit => rfl

theorem cellFrom_eq {p : Nat} {cell : Cell} (h : l.template.cells[p]? = some cell) :
    cellFrom l.width l.fields l.template.literalValue l.template.literalMask p = cell := by
  have hp : p < l.template.cells.length := (List.getElem?_eq_some_iff.mp h).1
  have hbit : ∀ kind, (maskOf kind l.template.cells).testBit (l.template.width - 1 - p) =
      kind cell := by
    intro kind
    rw [← Template.length_cells, testBit_maskOf_position kind _ hp, h]
    rfl
  rw [cellFrom, l.find?_positions h, width, Template.literalMask, Template.literalValue, hbit,
    hbit]
  cases cell <;> rfl

/-- The cells of a template can be read back from its layout. -/
theorem cellsFrom_eq :
    cellsFrom l.width l.fields l.template.literalValue l.template.literalMask =
      l.template.cells := by
  apply List.ext_getElem
  · simp [cellsFrom, width]
  · intro p _ hp
    simp only [cellsFrom, List.getElem_map, List.getElem_range]
    exact l.cellFrom_eq (List.getElem?_eq_getElem hp)

theorem sameFields_iff (fs gs : List Field) : sameFields fs gs = true ↔ fs = gs := by
  induction fs generalizing gs with
  | nil => cases gs <;> simp [sameFields]
  | cons f rest ih =>
    cases gs with
    | nil => simp [sameFields]
    | cons g others => simp [sameFields, ih, Field.same_iff]

/-- What two layouts that are the same share. -/
theorem same_iff : l.same m = true ↔ l.width = m.width ∧ l.fields = m.fields ∧
    l.template.literalValue = m.template.literalValue ∧
    l.template.literalMask = m.template.literalMask := by
  simp [same, sameFields_iff, and_assoc]

theorem same_iff_cells : l.same m = true ↔ l.template.cells = m.template.cells := by
  rw [same_iff]
  constructor
  · rintro ⟨hwidth, hfields, hvalue, hmask⟩
    rw [← l.cellsFrom_eq, hwidth, hfields, hvalue, hmask, m.cellsFrom_eq]
  · intro h
    exact ⟨width_congr h, fields_congr h, literalValue_congr h, congrArg (maskOf Cell.isLiteral) h⟩

end Layout

/-- Cells are written alike only if they are the same. -/
theorem Template.cellText_eq_iff (t u : Template) :
    t.cellText = u.cellText ↔ t.cells = u.cells := by
  constructor
  · intro h
    obtain ⟨t', ht, htcells⟩ := t.exists_expansion
    obtain ⟨u', hu, hucells⟩ := u.exists_expansion
    rw [h, hu] at ht
    rw [← htcells, ← hucells, Except.ok.inj ht]
  · intro h
    rw [cellText, cellText, h]

/-- Two layouts are the same exactly if their templates have the same cells, and so exactly if their
templates are the same, in whatever texts and bases these are written. They are compared by width,
fields and literals, and yet their hash, which is taken of the cells, is the same if they are. -/
theorem Layout.same_iff_template_same (t u : Template) :
    ((Value.layout ⟨t⟩).same (.layout ⟨u⟩) = true ↔
      (⟨t⟩ : Layout).width = (⟨u⟩ : Layout).width ∧ (⟨t⟩ : Layout).fields = (⟨u⟩ : Layout).fields ∧
        t.literalValue = u.literalValue ∧ t.literalMask = u.literalMask) ∧
    ((Value.layout ⟨t⟩).same (.layout ⟨u⟩) = true ↔ t.cells = u.cells) ∧
    (t.cells = u.cells ↔ (Value.template t).same (.template u) = true) ∧
    (t.cells = u.cells ↔ t.cellText = u.cellText) ∧
    ((Value.layout ⟨t⟩).same (.layout ⟨u⟩) = true → ∀ hashText : String → Int,
      (⟨t⟩ : Layout).hash hashText = (⟨u⟩ : Layout).hash hashText) := by
  have hlayout : (Value.layout ⟨t⟩).same (.layout ⟨u⟩) = (⟨t⟩ : Layout).same ⟨u⟩ := by
    rw [Value.same]
  have htemplate : (Value.template t).same (.template u) = true ↔ t.cells = u.cells := by
    simp [Value.same, Template.same]
  rw [hlayout]
  refine ⟨same_iff _ _, same_iff_cells _ _, htemplate.symm, (t.cellText_eq_iff u).symm, ?_⟩
  intro hsame hashText
  have hcells : t.cells = u.cells := (same_iff_cells _ _).mp hsame
  rw [hash, hash, Template.hash, Template.hash, (t.cellText_eq_iff u).mpr hcells]

/-- A template in base sixteen and its cells in base two. -/
theorem Layout.same_iff_template_same_expanded :
    ∃ t u, Template.ofText (.text "a.3C") (.base .hexadecimal) = .ok t ∧
      Template.ofText (.text "aaaa .... 0011 1100") (.base .binary) = .ok u ∧
      (Value.layout ⟨t⟩).same (.layout ⟨u⟩) = true ∧
      ∀ hashText : String → Int, (⟨t⟩ : Layout).hash hashText = (⟨u⟩ : Layout).hash hashText := by
  have ht : (Template.ofText (.text "a.3C") (.base .hexadecimal)).map Template.cellText =
      .ok "aaaa....00111100" := by rfl
  have hu : (Template.ofText (.text "aaaa .... 0011 1100") (.base .binary)).map
      Template.cellText = .ok "aaaa....00111100" := by rfl
  rw [map_eq_ok_iff] at ht hu
  obtain ⟨t, ht, htext⟩ := ht
  obtain ⟨u, hu, hutext⟩ := hu
  obtain ⟨_, hlayout, _, htexts, hhash⟩ := same_iff_template_same t u
  have hsame := hlayout.mpr (htexts.mpr (htext.trans hutext.symm))
  exact ⟨t, u, ht, hu, hsame, hhash hsame⟩

end BitTemplate
