import BitTemplate.Proofs.Conformity
import BitTemplate.Proofs.Expansion
import BitTemplate.Proofs.Ownership

/-!
Descriptions of layouts. The description of a layout conforms to the schema and loses nothing: the
positions of its fields, counted from the most significant bit, and its masks, whose bits are
counted from the least significant one, name every position of the template exactly once, and what
they name there is the cell of the template.
-/
namespace BitTemplate

open Failure

namespace Field

theorem isDocument_description (f : Field) : f.description.IsDocument := by
  have hpositions : Value.IsDocument (.list (f.positions.map fun (p : Nat) => .int p)) := by
    refine .list ?_
    rw [List.forall_mem_map]
    exact fun p _ => .int p
  refine .dict (by simp) ?_ (by simp)
  simp [hpositions, Value.IsDocument.int, Value.IsDocument.text, Value.ofLetter]

/-- A field has a letter, and one or more different positions. -/
theorem isField_description {IsName : String → Prop} (hname : ∀ a : Letter, IsName a.text)
    (f : Field) : Description.IsField IsName f.description := by
  have hpositions : List.Forall₂ (fun item p => item.AmountsTo (p : Int))
      (f.positions.map fun (p : Nat) => Value.int p) f.positions := by
    rw [List.forall₂_map_left_iff, List.forall₂_same]
    exact fun p _ => Or.inl rfl
  have hwidth : (1 : Int) ≤ f.width := by
    exact_mod_cast List.length_pos_of_ne_nil f.nonempty
  exact ⟨f.name.text, .int f.width, _, f.positions, ⟨_, rfl, .refl _⟩, hname f.name,
    ⟨f.width, hwidth, Or.inl rfl⟩, f.nonempty, f.nodup, hpositions⟩

end Field

namespace Layout

theorem isDocument_description (l : Layout) : l.description.IsDocument := by
  have hfields : Value.IsDocument (.list (l.fields.map Field.description)) := by
    refine .list ?_
    rw [List.forall_mem_map]
    exact fun f _ => f.isDocument_description
  have hliteral : Value.IsDocument (.dict [(.text "mask", .int l.template.literalMask),
      (.text "value", .int l.template.literalValue)]) :=
    .dict (by simp) (by simp [Value.IsDocument.int]) (by simp)
  refine .dict (by simp) ?_ (by simp)
  simp [hfields, hliteral, Value.IsDocument.int, Value.IsDocument.text]

/-- The description of a layout conforms to the schema, as far as letters are names. -/
theorem conformsBy_description {IsName : String → Prop} (hname : ∀ a : Letter, IsName a.text)
    (l : Layout) : Description.ConformsBy IsName l.description := by
  have hbase : Value.text l.template.base.adjective = .text "binary" ∨
      Value.text l.template.base.adjective = .text "hexadecimal" := by
    cases l.template.base with
    | binary => exact Or.inl rfl
    | hexadecimal => exact Or.inr rfl
  have hfields : ∀ field ∈ l.fields.map Field.description, Description.IsField IsName field := by
    rw [List.forall_mem_map]
    exact fun f _ => f.isField_description hname
  have hcount : ∀ n : Nat, Description.IsCount 0 (.int n) :=
    fun n => ⟨n, Int.natCast_nonneg n, Or.inl rfl⟩
  exact ⟨_, _, _, _, _, ⟨_, rfl, .refl _⟩, ⟨l.width, l.template.standard, Or.inl rfl⟩, hbase,
    hfields, ⟨_, _, ⟨_, rfl, .refl _⟩, hcount _, hcount _⟩, hcount _⟩

theorem ofValueBy_layout {V : Validator} {Matches : String → String → Prop}
    {Obeys : Schema → Keyword → Value → Prop} (hstandard : V.Standard Matches Obeys)
    (hletters : ∀ a : Letter, Matches Validator.letterPattern a.text) (l : Layout) :
    Description.ofValueBy V (.layout l) = .ok (l, l.description) := by
  have haccepts := (Description.accepts_iff hstandard l.isDocument_description).mpr
    (l.conformsBy_description hletters)
  have hsome : l.description ≠ .none := by
    intro h
    cases h
  rw [Description.ofValueBy, Description.checkBy_of_document V l.isDocument_description hsome,
    haccepts]
  rfl

theorem ofValue_layout (l : Layout) :
    Description.ofValue (.layout l) = .ok (l, l.description) := by
  refine ofValueBy_layout (Validator.standard_ofMatch _) ?_ l
  intro a
  simp [Validator.isLetterLine, Letter.text, Letter.ofChar?_char]

end Layout

namespace Description

/-- What stands at a key of a document. -/
def property (document : Value) (name : String) : Value :=
  match document with
  | .dict entries => (Value.entry? name entries).getD .none
  | _ => .none

/-- The natural number that a document is. -/
def number (v : Value) : Nat := (v.toInt?.getD 0).toNat

/-- The cells that the description of a field names at a position: one for each time that the
position is listed. -/
def fieldCells (field : Value) (p : Int) : List Cell :=
  match property field "name" with
  | .text s => (listItems (property field "positions")).flatMap fun q =>
      if q.toInt? = some p then ((Letter.ofString? s).map Cell.field).toList else []
  | _ => []

/-- Whether a mask has the bit of a position. Bit 0 belongs to the last position, and what lies
above the first position belongs to negative ones. -/
def hasBit (mask : Value) (width : Nat) (p : Int) : Bool :=
  decide (p < width) && (number mask).testBit (width - 1 - p).toNat

/-- All cells that a description names at a position. -/
def cellsAt (document : Value) (p : Int) : List Cell :=
  let width := number (property document "width")
  let literal := property document "literal"
  (listItems (property document "fields")).flatMap (fun field => fieldCells field p) ++
    (if hasBit (property literal "mask") width p then
      [.literal (hasBit (property literal "value") width p)] else []) ++
    if hasBit (property document "placeholder_mask") width p then [.placeholder] else []

/-- The cells that a description names at the positions of its width, from left to right. -/
def decode (document : Value) : List Cell :=
  (List.range (number (property document "width"))).flatMap fun (p : Nat) => cellsAt document p

theorem flatMap_eq_of_nodup {α β : Type} [DecidableEq α] {xs : List α} (h : xs.Nodup) (a : α)
    (g : α → List β) : xs.flatMap (fun x => if x = a then g x else []) =
      if a ∈ xs then g a else [] := by
  induction xs with
  | nil => rfl
  | cons x rest ih =>
    rw [List.nodup_cons] at h
    rw [List.flatMap_cons, ih h.2]
    by_cases hx : x = a
    · subst hx
      simp [h.1]
    · simp [hx, Ne.symm hx]

/-- The cell of a template at a position, if there is one. -/
def cellAt? (cells : List Cell) (p : Int) : Option Cell := if 0 ≤ p then cells[p.toNat]? else none

theorem cellAt?_eq_some_iff (cells : List Cell) (p : Int) (cell : Cell) :
    cellAt? cells p = some cell ↔ ∃ q : Nat, (q : Int) = p ∧ cells[q]? = some cell := by
  unfold cellAt?
  constructor
  · intro h
    split at h
    · rename_i hp
      exact ⟨p.toNat, Int.toNat_of_nonneg hp, h⟩
    · cases h
  · rintro ⟨q, rfl, hcell⟩
    rwa [if_pos (Int.natCast_nonneg q), Int.toNat_natCast]

/-- A field names its letter at the positions that it occupies. -/
theorem fieldCells_description (f : Field) (p : Int) :
    fieldCells f.description p = if p ∈ f.positions.map Nat.cast then [.field f.name] else [] := by
  have hname : property f.description "name" = .text f.name.text := rfl
  have hpositions : listItems (property f.description "positions") =
      f.positions.map fun (q : Nat) => .int q := rfl
  have hdistinct : (f.positions.map (Nat.cast : Nat → Int)).Nodup :=
    f.nodup.map Nat.cast_injective
  unfold fieldCells
  rw [hname]
  simp only [hpositions, Letter.ofString?_text]
  rw [← flatMap_eq_of_nodup hdistinct p fun _ => [Cell.field f.name], List.flatMap_map,
    List.flatMap_map]
  simp [Value.toInt?, Value.numeral?, Numeral.toInt]

/-- A field of a layout names its letter at the cells of the letter. -/
theorem fieldCells_of_mem {l : Layout} {f : Field} (hf : f ∈ l.fields) (p : Int) :
    fieldCells f.description p =
      if cellAt? l.template.cells p = some (.field f.name) then [.field f.name] else [] := by
  obtain ⟨a, ha, rfl⟩ := (l.mem_fields_iff f).mp hf
  have hmem : p ∈ (l.template.field a ha).positions.map (Nat.cast : Nat → Int) ↔
      cellAt? l.template.cells p = some (.field a) := by
    rw [cellAt?_eq_some_iff, List.mem_map]
    refine exists_congr fun q => ?_
    rw [and_comm]
    exact and_congr_right fun _ => mem_positionsFrom_iff a l.template.cells q
  rw [fieldCells_description]
  exact if_congr hmem rfl rfl

/-- The fields of a layout name the letter of a cell that has one, and once. -/
theorem fieldCells_layout (l : Layout) (p : Int) :
    (listItems (property l.description "fields")).flatMap (fun field => fieldCells field p) =
      ((cellAt? l.template.cells p).bind Cell.letter?).toList.map .field := by
  have hfields : listItems (property l.description "fields") =
      l.fields.map Field.description := rfl
  have hnames : l.fields.flatMap (fun f => fieldCells f.description p) = l.names.flatMap fun a =>
      if cellAt? l.template.cells p = some (.field a) then [.field a] else [] := by
    rw [Layout.names, List.flatMap_map]
    exact List.flatMap_congr fun f hf => fieldCells_of_mem hf p
  rw [hfields, List.flatMap_map, hnames]
  cases hcell : cellAt? l.template.cells p with
  | none => simp
  | some cell =>
    cases cell with
    | placeholder => simp [Cell.letter?]
    | literal b => simp [Cell.letter?]
    | field a =>
      have hknown : a ∈ l.names := by
        obtain ⟨q, _, hq⟩ := (cellAt?_eq_some_iff _ _ _).mp hcell
        rw [Layout.names_eq, Template.mem_names]
        exact List.mem_of_getElem? hq
      have hsingle := flatMap_eq_of_nodup l.nodup_names a fun b => [Cell.field b]
      rw [if_pos hknown] at hsingle
      simpa [Cell.letter?, eq_comm] using hsingle

theorem number_width (l : Layout) :
    number (property l.description "width") = l.template.cells.length := by
  rw [Template.length_cells]
  rfl

theorem hasBit_maskOf (kind : Cell → Bool) (cells : List Cell) (p : Int) :
    hasBit (.int (maskOf kind cells)) cells.length p = ((cellAt? cells p).map kind).getD false := by
  have hnumber : number (.int (maskOf kind cells)) = maskOf kind cells := rfl
  unfold hasBit cellAt?
  rw [hnumber]
  by_cases hlow : 0 ≤ p
  · by_cases hhigh : p < cells.length
    · have hplace : ((cells.length : Int) - 1 - p).toNat = cells.length - 1 - p.toNat := by omega
      rw [decide_eq_true hhigh, Bool.true_and, hplace,
        testBit_maskOf_position kind cells (by omega), if_pos hlow]
    · have hnone : cells[p.toNat]? = none := List.getElem?_eq_none (by omega)
      rw [decide_eq_false hhigh, Bool.false_and, if_pos hlow, hnone]
      rfl
  · have hnone : cells.reverse[((cells.length : Int) - 1 - p).toNat]? = none :=
      List.getElem?_eq_none (by rw [List.length_reverse]; omega)
    simp [testBit_maskOf, hnone, hlow]

/-- What the description of a layout names at a position is the cell of the template. -/
theorem cellsAt_description (l : Layout) (p : Int) :
    cellsAt l.description p = (cellAt? l.template.cells p).toList := by
  have hbit : ∀ kind, hasBit (.int (maskOf kind l.template.cells))
      (number (property l.description "width")) p =
        ((cellAt? l.template.cells p).map kind).getD false := by
    intro kind
    rw [number_width, hasBit_maskOf]
  have hmask := hbit Cell.isLiteral
  have hvalue := hbit Cell.isOne
  have hplaceholder := hbit Cell.isPlaceholder
  unfold cellsAt
  rw [fieldCells_layout]
  change _ ++ (if hasBit (.int (maskOf Cell.isLiteral l.template.cells)) _ p then
    [Cell.literal (hasBit (.int (maskOf Cell.isOne l.template.cells)) _ p)] else []) ++
    (if hasBit (.int (maskOf Cell.isPlaceholder l.template.cells)) _ p then
      [Cell.placeholder] else []) = _
  rw [hmask, hvalue, hplaceholder]
  cases cellAt? l.template.cells p with
  | none => rfl
  | some cell => cases cell <;> rfl

theorem flatMap_range_getElem? {α : Type} (xs : List α) :
    (List.range xs.length).flatMap (fun i => xs[i]?.toList) = xs := by
  induction xs with
  | nil => rfl
  | cons x rest ih =>
    rw [List.length_cons, List.range_succ_eq_map, List.flatMap_cons, List.flatMap_map]
    exact congrArg (x :: ·) ih

/-- Decoding the description of a layout gives the cells of the template. -/
theorem decode_description (l : Layout) : decode l.description = l.template.cells := by
  unfold decode
  rw [number_width]
  refine Eq.trans ?_ (flatMap_range_getElem? l.template.cells)
  refine List.flatMap_congr fun p _ => ?_
  rw [cellsAt_description, cellAt?, if_pos (Int.natCast_nonneg p), Int.toNat_natCast]

end Description

namespace Value

theorem equalsInt_int_iff (m n : Int) : (Value.int m).equalsInt n = true ↔ n = m := by
  have hcompare : (Value.int m).compareInt? n = some (compare m n) := rfl
  rw [equalsInt, hcompare, beq_iff_eq, Option.some.injEq, compare_eq_iff_eq, eq_comm]

theorem sameItems_iff {xs ys : List Value}
    (h : ∀ x ∈ xs, ∀ y ∈ ys, x.same y = true ↔ x = y) : sameItems xs ys = true ↔ xs = ys := by
  induction xs generalizing ys with
  | nil => cases ys <;> simp [sameItems]
  | cons x rest ih =>
    cases ys with
    | nil => simp [sameItems]
    | cons y others =>
      have hrest : sameItems rest others = true ↔ rest = others := by
        apply ih
        intro a ha b hb
        exact h a (List.mem_cons_of_mem _ ha) b (List.mem_cons_of_mem _ hb)
      rw [sameItems, Bool.and_eq_true, h x (List.mem_cons_self ..) y (List.mem_cons_self ..), hrest,
        List.cons.injEq]

end Value

/-- The descriptions of two fields are the same only if they are equal, since their numbers are
integers all. -/
theorem Field.same_description_iff (f g : Field) :
    f.description.same g.description = true ↔ f.description = g.description := by
  have hpositions : Value.sameItems (f.positions.map fun (p : Nat) => .int p)
      (g.positions.map fun (p : Nat) => .int p) = true ↔
        f.positions.map (fun (p : Nat) => Value.int p) =
          g.positions.map fun (p : Nat) => .int p := by
    apply Value.sameItems_iff
    simp [Value.same, Value.equalsInt_int_iff]
  simp [Field.description, Value.same, Value.sameEntries, Value.ofLetter, hpositions,
    Value.equalsInt_int_iff]

theorem Layout.same_description_iff (l m : Layout) :
    l.description.same m.description = true ↔ l.description = m.description := by
  have hfields : Value.sameItems (l.fields.map Field.description) (m.fields.map Field.description) =
      true ↔ l.fields.map Field.description = m.fields.map Field.description := by
    apply Value.sameItems_iff
    simp only [List.forall_mem_map]
    exact fun f _ g _ => f.same_description_iff g
  simp [Layout.description, Value.same, Value.sameEntries, hfields, Value.equalsInt_int_iff]

/-- Layouts have equal descriptions if their templates have the same cells in the same base. -/
theorem Layout.description_eq_iff (l m : Layout) : l.description = m.description ↔
    l.template.cells = m.template.cells ∧ l.template.base = m.template.base := by
  constructor
  · intro h
    refine ⟨?_, ?_⟩
    · rw [← Description.decode_description l, h, Description.decode_description m]
    · have hbase : Value.text l.template.base.adjective = .text m.template.base.adjective :=
        congrArg (Description.property · "base") h
      cases hl : l.template.base <;> cases hm : m.template.base <;>
        simp_all [Base.adjective]
  · rintro ⟨hcells, hbase⟩
    have hmask : l.template.literalMask = m.template.literalMask :=
      congrArg (maskOf Cell.isLiteral) hcells
    rw [description, description, width_congr hcells, fields_congr hcells, hbase, hmask,
      literalValue_congr hcells, placeholderMask_congr hcells]

/-- The description of a layout can always be given, since it conforms to the schema, whichever
validator is used for that, and loses
nothing: it names one cell at each position of the template, that of the template, and none
elsewhere. So two layouts have the same description exactly if their templates have the same cells
and the same base. -/
theorem Layout.description_faithful (l : Layout) :
    Description.Conforms l.description ∧
    Description.ofValue (.layout l) = .ok (l, l.description) ∧
    (∀ V Matches Obeys, Validator.Standard V Matches Obeys →
      (∀ a : Letter, Matches Validator.letterPattern a.text) →
      Description.ofValueBy V (.layout l) = .ok (l, l.description)) ∧
    (∀ p : Int, Description.cellsAt l.description p =
      (if 0 ≤ p then l.template.cells[p.toNat]? else none).toList) ∧
    Description.decode l.description = l.template.cells ∧
    ∀ m : Layout, (l.description.same m.description = true ↔ l.description = m.description) ∧
      (l.description = m.description ↔
        l.template.cells = m.template.cells ∧ l.template.base = m.template.base) :=
  ⟨l.conformsBy_description fun a => ⟨a, rfl⟩, l.ofValue_layout,
    fun _ _ _ hstandard hletters => ofValueBy_layout hstandard hletters l,
    Description.cellsAt_description l, Description.decode_description l,
    fun m => ⟨l.same_description_iff m, l.description_eq_iff m⟩⟩

end BitTemplate
