import BitTemplate.Operation.Basic
import BitTemplate.Proofs.Grammar
import BitTemplate.Proofs.Reading
import BitTemplate.Proofs.Words

/-!
A template of base sixteen behaves as the binary template that writes its cells one by one. The
fields, the masks and the code of a template are determined by its cells alone. Only errors look
back at how a template is written: they show its text and point at a character of it. So templates
with the same cells make the same operations, and where one of them is refused the other is
refused for the same cause.
-/
namespace BitTemplate

open Failure

namespace Cell

/-- Every cell is the meaning of its own character in base two. -/
theorem means_char (cell : Cell) : Base.binary.Means cell.char [cell] := by
  cases cell with
  | field a =>
    refine .letter a ?_
    intro hdigit
    have halpha := a.isAlpha
    simp only [Base.digits, List.mem_cons, List.not_mem_nil, or_false] at hdigit
    rcases hdigit with h | h
    · rw [h] at halpha
      exact absurd halpha (by decide)
    · rw [h] at halpha
      exact absurd halpha (by decide)
  | placeholder => exact .placeholder
  | literal digit =>
    cases digit with
    | false => exact @Base.Means.digit .binary '0' 0 [false] rfl rfl rfl
    | true => exact @Base.Means.digit .binary '1' 1 [true] rfl rfl rfl

theorem not_blank (cell : Cell) : Text.isBlank cell.char = false := by
  cases cell with
  | field a => exact a.not_blank
  | placeholder => decide
  | literal digit => cases digit <;> decide

end Cell

namespace Template

/-- Reading the characters of cells gives the cells back. -/
theorem readMarks_chars (index : Nat) (cells : List Cell) :
    ∃ marks, readMarks .binary index (cells.map Cell.char) = .ok marks ∧
      marks.map Mark.cell = cells := by
  induction cells generalizing index with
  | nil => exact ⟨[], rfl, rfl⟩
  | cons cell rest ih =>
    obtain ⟨marks, hread, hcells⟩ := ih (index + 1)
    refine ⟨⟨cell, index⟩ :: marks, ?_, ?_⟩
    · rw [List.map_cons, readMarks_of_means index _ cell.not_blank cell.means_char, hread]
      rfl
    · rw [List.map_cons, hcells]

/-- The cells of a template write a binary template with the same cells. -/
theorem exists_expansion (t : Template) :
    ∃ u, ofText (.text t.cellText) (.base .binary) = .ok u ∧ u.cells = t.cells := by
  obtain ⟨marks, hread, hcells⟩ := readMarks_chars 0 t.cells
  have htext : readMarks .binary 0 t.cellText.toList = .ok marks := by
    rw [cellText, String.toList_ofList]
    exact hread
  have hwidth : marks.length ∈ standardWidths := by
    have hlength := congrArg List.length hcells
    rw [List.length_map, length_cells] at hlength
    rw [hlength]
    exact t.standard
  exact ⟨⟨_, _, marks, hwidth⟩, (ofText_of_readMarks htext).trans (dif_pos hwidth), hcells⟩

end Template

/-- A fault without the character that it shows. -/
def Fault.unspelled : Fault → Fault
  | .literal _ purpose hint => .literal '0' purpose hint
  | fault => fault

/-- An error without the text of the template that it is about. -/
def Error.unspelled : Error → Error
  | .diagnostic d => .diagnostic ⟨d.fault.unspelled, "", none⟩
  | .widthOfUnknownField name _ => .widthOfUnknownField name ""
  | .tooManyValues _ fields values => .tooManyValues "" fields values
  | .unknownKeyword _ keyword => .unknownKeyword "" keyword
  | e => e

theorem Error.errorClass_unspelled (e : Error) : e.unspelled.errorClass = e.errorClass := by
  cases e with
  | diagnostic d => cases hfault : d.fault <;> simp [unspelled, Fault.unspelled, errorClass,
      isUnwritable, numbers, causeClass, Fault.errorClass, hfault]
  | _ => rfl

/-- Errors of the same class that differ at most in how the template is written that they are
about. -/
structure Error.SameCause (e e' : Error) : Prop where
  errorClass_eq : e.errorClass = e'.errorClass
  unspelled_eq : e.unspelled = e'.unspelled

theorem Error.sameCause_of_unspelled {e e' : Error} (h : e.unspelled = e'.unspelled) :
    e.SameCause e' := by
  refine ⟨?_, h⟩
  rw [← e.errorClass_unspelled, h, e'.errorClass_unspelled]

theorem Error.SameCause.refl (e : Error) : e.SameCause e := ⟨rfl, rfl⟩

/-- Diagnostics of the same fault, wherever they point. -/
def Diagnostic.SameFault (d d' : Diagnostic) : Prop := d.fault.unspelled = d'.fault.unspelled

theorem Diagnostic.SameFault.sameCause (d d' : Diagnostic) (h : d.SameFault d') :
    (Error.diagnostic d).SameCause (.diagnostic d') := by
  apply Error.sameCause_of_unspelled
  rw [Error.unspelled, Error.unspelled, h]

/-- The letter, the positions and the width are all that is known of a field. -/
theorem Field.key_injective :
    Function.Injective fun f : Field => (f.name, f.positions, f.templateWidth) := by
  intro f g hfg
  cases f
  cases g
  simp only [Prod.mk.injEq] at hfg
  obtain ⟨rfl, rfl, rfl⟩ := hfg
  rfl

open Error (SameCause)
open Diagnostic (SameFault)

/-! What templates with the same cells share. -/

section SameCells

variable {l m : Layout} (h : l.template.cells = m.template.cells)

include h

namespace Layout

theorem width_congr : l.width = m.width := by
  rw [width, width, ← Template.length_cells, ← Template.length_cells, h]

theorem names_congr : l.names = m.names := by
  rw [names_eq, names_eq, Template.names, Template.names, h]

theorem placeholderMask_congr : l.template.placeholderMask = m.template.placeholderMask :=
  congrArg (maskOf Cell.isPlaceholder) h

theorem literalValue_congr : l.template.literalValue = m.template.literalValue :=
  congrArg (maskOf Cell.isOne) h

theorem fields_congr : l.fields = m.fields := by
  apply List.map_injective_iff.mpr Field.key_injective
  rw [l.map_fields _ (fun a => (a, positionsFrom a 0 l.template.cells, l.width)) fun _ _ => rfl,
    m.map_fields _ (fun a => (a, positionsFrom a 0 m.template.cells, m.width)) fun _ _ => rfl,
    ← names_eq, ← names_eq, names_congr h, width_congr h, h]

theorem key?_congr (key : Value) : l.key? key = m.key? key := by
  unfold key?
  rw [names_congr h]

theorem shaped_congr (precision : Precision) (minimum : Option Shape) :
    l.shaped precision minimum = m.shaped precision minimum := by
  rw [shaped, shaped, fields_congr h]

theorem combine_congr (slots : List Slot) (values : List Value) :
    l.combine slots values = m.combine slots values := by
  rw [combine, combine, literalValue_congr h, width_congr h]

theorem replace_congr (slots : List Slot) (target : Value) (values : List Value) :
    l.replace slots target values = m.replace slots target values := by
  unfold replace
  rw [placeholderMask_congr h, combine_congr h]

theorem checkKeys_alike (keys : List Value) :
    Alike SameCause Eq (l.checkKeys keys) (m.checkKeys keys) := by
  induction keys with
  | nil => exact .ok rfl
  | cons key rest ih =>
    rw [checkKeys, checkKeys, key?_congr h]
    cases m.key? key with
    | some a => exact ih
    | none => exact .error (Error.sameCause_of_unspelled rfl)

theorem readWidths_alike (widths : Value) :
    Alike SameCause Eq (l.readWidths widths) (m.readWidths widths) := by
  unfold readWidths
  split
  · exact .ok rfl
  · split
    · exact .refl .refl _
    · refine (checkKeys_alike h _).next ?_
      intro _
      exact .ok rfl

theorem makeSlots_alike (overflow widths : Value) :
    Alike SameCause Eq (l.makeSlots overflow widths) (m.makeSlots overflow widths) := by
  refine (Alike.refl .refl (Overflow.ofValue overflow)).next ?_
  intro policy
  refine (readWidths_alike h widths).next ?_
  intro declared
  rw [fields_congr h]
  exact .refl .refl _

theorem addKeywords_alike (bound : List (Letter × Value)) (keywords : List (Value × Value)) :
    Alike SameCause Eq (l.addKeywords bound keywords) (m.addKeywords bound keywords) := by
  induction keywords generalizing bound with
  | nil => exact .ok rfl
  | cons keyword rest ih =>
    rw [addKeywords, addKeywords, key?_congr h]
    cases m.key? keyword.1 with
    | none => exact .error (Error.sameCause_of_unspelled rfl)
    | some a =>
      simp only
      cases bound.lookup a with
      | some v => exact .error (.refl _)
      | none => exact ih _

omit h in
theorem resolve_alike (l m : Layout) (bound : List (Letter × Value)) (scope : Option Scope)
    (a : Letter) : Alike SameCause Eq (l.resolve bound scope a) (m.resolve bound scope a) := by
  unfold resolve
  split
  · exact .ok rfl
  · split
    · exact .ok rfl
    · exact .error (Error.sameCause_of_unspelled rfl)

theorem bind_alike (values : List Value) (keywords : List (Value × Value))
    (scope : Option Scope) :
    Alike SameCause Eq (l.bind values keywords scope) (m.bind values keywords scope) := by
  unfold bind
  rw [names_congr h]
  by_cases hmany : m.names.length < values.length
  · rw [if_pos hmany, if_pos hmany]
    exact .error (Error.sameCause_of_unspelled rfl)
  · rw [if_neg hmany, if_neg hmany]
    refine (addKeywords_alike h _ _).next ?_
    intro bound
    exact .mapM_same fun a _ => resolve_alike l m bound scope a

end Layout

namespace Program

theorem combine_congr (slots : List Slot) (kept : Option Name) :
    combine l slots kept = combine m slots kept := by
  unfold combine
  rw [Layout.width_congr h, Layout.placeholderMask_congr h, Layout.literalValue_congr h]

theorem combination_congr (name : String) (slots : List Slot) :
    combination name l slots = combination name m slots := by
  rw [combination, combination, combine_congr h]

theorem replacement_congr (name : String) (slots : List Slot) :
    replacement name l slots = replacement name m slots := by
  rw [replacement, replacement, combine_congr h]

theorem transfer_congr (name : String) (inputs : Nat) (slots : List (Slot × Source)) :
    transfer name inputs l slots = transfer name inputs m slots := by
  unfold transfer
  rw [combine_congr h]

end Program

end SameCells

namespace Template

variable {t u : Template} (h : t.cells = u.cells)

include h

/-- Both templates have a cell of a kind, or neither has. -/
theorem firstMark?_cases (kind : Cell → Bool) :
    (t.firstMark? kind = none ∧ u.firstMark? kind = none) ∨
      ∃ mark mark', t.firstMark? kind = some mark ∧ u.firstMark? kind = some mark' := by
  have hnone : t.firstMark? kind = none ↔ u.firstMark? kind = none := by
    rw [firstMark?_eq_none_iff, firstMark?_eq_none_iff, h]
  cases hu : u.firstMark? kind with
  | none => exact Or.inl ⟨hnone.mpr hu, rfl⟩
  | some mark' =>
    cases ht : t.firstMark? kind with
    | none =>
      rw [hnone.mp ht] at hu
      cases hu
    | some mark => exact Or.inr ⟨mark, mark', rfl, rfl⟩

theorem forbid_alike (kind : Cell → Bool) {fault : Char → Fault}
    (hfault : ∀ c c', (fault c).unspelled = (fault c').unspelled) :
    Alike SameFault Eq (t.forbid kind fault) (u.forbid kind fault) := by
  unfold forbid
  rcases firstMark?_cases h kind with ⟨ht, hu⟩ | ⟨mark, mark', ht, hu⟩
  · rw [ht, hu]
    exact .ok rfl
  · rw [ht, hu]
    exact .error (hfault _ _)

end Template

/-- Values that are read as templates with the same cells, or refused for the same cause. -/
def SameReading (base base' v v' : Value) : Prop :=
  Alike SameCause (fun t u : Template => t.cells = u.cells) (Template.ofValue v base)
    (Template.ofValue v' base')

/-! Operations that are made of templates with the same cells. -/

namespace Extraction

structure Matches (x y : Extraction) : Prop where
  executor : x.executor = y.executor
  cells : x.layout.template.cells = y.layout.template.cells
  shaped : x.shaped = y.shaped
  named : x.named = y.named

namespace Matches

variable {x y : Extraction} (h : x.Matches y)

include h

theorem function_eq (name : String) (record : Option String) :
    x.function name record = y.function name record := by
  rw [function, function, Layout.width_congr h.cells, h.shaped]

theorem run_eq (value : Value) : x.run value = y.run value := by
  unfold run values interpret label Extraction.names
  rw [h.executor, h.shaped, h.named, Layout.names_congr h.cells]

end Matches

theorem make_alike {base base' v v' : Value} (hread : SameReading base base' v v')
    (s : Settings) (fallback : Option String) :
    Alike SameCause Matches (make { s with template := v, base := base } fallback)
      (make { s with template := v', base := base' } fallback) := by
  refine (Alike.refl .refl (Engine.select s.engine fallback)).next ?_
  intro engine
  refine hread.bind ?_
  intro t u hcells
  refine ((Template.forbid_alike hcells _ fun _ _ => rfl).mapError
    Diagnostic.SameFault.sameCause).next ?_
  intro _
  refine (Alike.refl .refl (Precision.ofValue s.precision)).next ?_
  intro precision
  refine (Alike.refl .refl (Shape.least s.minimum (.precision precision))).next ?_
  intro minimum
  rw [Layout.shaped_congr (l := ⟨t⟩) (m := ⟨u⟩) hcells,
    Layout.width_congr (l := ⟨t⟩) (m := ⟨u⟩) hcells]
  refine (Alike.refl .refl ((⟨u⟩ : Layout).shaped precision minimum)).next ?_
  intro shaped
  refine (Alike.refl .refl _).next ?_
  intro executor
  exact .ok ⟨rfl, hcells, rfl, rfl⟩

end Extraction

namespace Depositing

structure Matches (d e : Depositing) : Prop where
  executor : d.executor = e.executor
  cells : d.layout.template.cells = e.layout.template.cells
  slots : d.slots = e.slots

theorem make_alike {accept : Template → Except Diagnostic Unit}
    {code : Layout → List Slot → Except Error Program.Function}
    (haccept : ∀ t u : Template, t.cells = u.cells → Alike SameFault Eq (accept t) (accept u))
    (hcode : ∀ (l m : Layout) (slots : List Slot), l.template.cells = m.template.cells →
      code l slots = code m slots)
    {base base' v v' : Value} (hread : SameReading base base' v v') (s : StorageSettings)
    (fallback : Option String) :
    Alike SameCause Matches (make accept code { s with template := v, base := base } fallback)
      (make accept code { s with template := v', base := base' } fallback) := by
  refine (Alike.refl .refl (Engine.select s.engine fallback)).next ?_
  intro engine
  refine hread.bind ?_
  intro t u hcells
  refine ((haccept t u hcells).mapError Diagnostic.SameFault.sameCause).next ?_
  intro _
  refine (Layout.makeSlots_alike (l := ⟨t⟩) (m := ⟨u⟩) hcells s.overflow s.widths).next ?_
  intro slots
  rw [hcode ⟨t⟩ ⟨u⟩ slots hcells]
  refine (Alike.refl .refl _).next ?_
  intro executor
  exact .ok ⟨rfl, hcells, rfl⟩

end Depositing

namespace Combination

variable {c d : Combination} (h : c.toDepositing.Matches d.toDepositing)

include h in
theorem function_eq (name : String) :
    Program.combination name c.layout c.slots = Program.combination name d.layout d.slots := by
  rw [h.slots, Program.combination_congr h.cells]

include h in
theorem call_alike (values : List Value) (keywords : List (Value × Value)) :
    Alike SameCause Eq (c.call values keywords) (d.call values keywords) := by
  refine (Layout.bind_alike h.cells values keywords none).next ?_
  intro bound
  have hrun : c.run bound = d.run bound := by
    unfold run
    rw [h.executor, h.slots, Layout.combine_congr h.cells]
  rw [hrun]
  exact .refl .refl _

theorem make_alike {base base' v v' : Value} (hread : SameReading base base' v v')
    (s : StorageSettings) (fallback : Option String) :
    Alike SameCause (fun c d : Combination => c.toDepositing.Matches d.toDepositing)
      (make { s with template := v, base := base } fallback)
      (make { s with template := v', base := base' } fallback) := by
  have haccept : ∀ t u : Template, t.cells = u.cells →
      Alike SameFault Eq (accept t) (accept u) := by
    intro t u hcells
    rw [accept, accept, Template.forbidPlaceholders, Template.forbidPlaceholders]
    exact Template.forbid_alike hcells _ fun _ _ => rfl
  rw [make, make, ← bind_ok, ← bind_ok]
  exact (Depositing.make_alike haccept
    (fun _ _ slots hcells => Program.combination_congr hcells "run" slots) hread s fallback).bind
    fun _ _ hmatches => .ok hmatches

end Combination

namespace Replacement

variable {r q : Replacement} (h : r.toDepositing.Matches q.toDepositing)

include h in
theorem function_eq (name : String) :
    Program.replacement name r.layout r.slots = Program.replacement name q.layout q.slots := by
  rw [h.slots, Program.replacement_congr h.cells]

include h in
theorem call_alike (target : Value) (values : List Value) (keywords : List (Value × Value)) :
    Alike SameCause Eq (r.call target values keywords) (q.call target values keywords) := by
  refine (Layout.bind_alike h.cells values keywords none).next ?_
  intro bound
  have hrun : r.run target bound = q.run target bound := by
    unfold run
    rw [h.executor, h.slots, Layout.replace_congr h.cells]
  rw [hrun]
  exact .refl .refl _

theorem make_alike {base base' v v' : Value} (hread : SameReading base base' v v')
    (s : StorageSettings) (fallback : Option String) :
    Alike SameCause (fun r q : Replacement => r.toDepositing.Matches q.toDepositing)
      (make { s with template := v, base := base } fallback)
      (make { s with template := v', base := base' } fallback) := by
  rw [make, make, ← bind_ok, ← bind_ok]
  exact (Depositing.make_alike (fun _ _ _ => .ok rfl)
    (fun _ _ slots hcells => Program.replacement_congr hcells "run" slots) hread s fallback).bind
    fun _ _ hmatches => .ok hmatches

end Replacement

namespace Transfer

/-- Only the text that an error shows depends on the layout. -/
theorem addFields_alike (l m : Layout) (index : Nat) (sources : List Program.Source)
    (fields : List Field) : Alike SameFault Eq (addFields l index sources fields)
      (addFields m index sources fields) := by
  induction fields generalizing sources with
  | nil => exact .ok rfl
  | cons f rest ih =>
    rw [addFields, addFields]
    cases source? sources f.name with
    | some earlier => exact .error rfl
    | none => exact ih _

theorem gather_cons (index : Nat) (sources : List Program.Source) (l : Layout)
    (rest : List Layout) : gather index sources (l :: rest) =
      addFields l index sources l.fields >>= fun found => gather (index + 1) found rest := by
  rw [gather]
  cases addFields l index sources l.fields <;> rfl

theorem gather_alike {ls ms : List Layout}
    (h : List.Forall₂ (fun l m : Layout => l.template.cells = m.template.cells) ls ms)
    (index : Nat) (sources : List Program.Source) :
    Alike SameFault Eq (gather index sources ls) (gather index sources ms) := by
  induction h generalizing index sources with
  | nil => exact .ok rfl
  | @cons l m ls ms hcells _ ih =>
    rw [gather_cons, gather_cons, Layout.fields_congr hcells]
    refine (addFields_alike l m index sources m.fields).next ?_
    intro found
    exact ih (index + 1) found

theorem link_alike (l m : Layout) (sources : List Program.Source) (policy : Overflow)
    (f : Field) : Alike SameFault Eq (link l sources policy f) (link m sources policy f) := by
  unfold link
  cases source? sources f.name with
  | some source => exact .ok rfl
  | none => exact .error rfl

structure Matches (x y : Transfer) : Prop where
  executor : x.executor = y.executor
  inputs : x.inputs.length = y.inputs.length
  output : x.output.template.cells = y.output.template.cells
  slots : x.slots = y.slots

theorem Matches.function_eq {x y : Transfer} (h : x.Matches y) (name : String) :
    Program.transfer name x.inputs.length x.output x.slots =
      Program.transfer name y.inputs.length y.output y.slots := by
  rw [h.inputs, h.slots, Program.transfer_congr h.output]

theorem Matches.run_eq {x y : Transfer} (h : x.Matches y) (values : List Value) :
    x.run values = y.run values := by
  unfold run interpret
  rw [h.executor, h.inputs, h.slots]
  simp only [Layout.combine_congr h.output]

theorem readInput_alike {base base' v v' : Value} (hread : SameReading base base' v v') :
    Alike SameCause (fun l m : Layout => l.template.cells = m.template.cells) (readInput base v)
      (readInput base' v') := by
  refine hread.bind ?_
  intro t u hcells
  refine ((Template.forbid_alike hcells _ fun _ _ => rfl).mapError
    Diagnostic.SameFault.sameCause).next ?_
  intro _
  exact .ok hcells

theorem make_alike {base base' v v' inputs inputs' : Value} {vs vs' : List Value}
    (hvs : inputValues inputs = .ok vs) (hvs' : inputValues inputs' = .ok vs')
    (hinputs : List.Forall₂ (SameReading base base') vs vs')
    (hread : SameReading base base' v v') (s : Settings) (fallback : Option String) :
    Alike SameCause Matches
      (make { s with inputs := inputs, output := v, base := base } fallback)
      (make { s with inputs := inputs', output := v', base := base' } fallback) := by
  refine (Alike.refl .refl (Engine.select s.engine fallback)).next ?_
  intro engine
  rw [hvs, hvs']
  refine (Alike.mapM (hinputs.imp fun _ _ => readInput_alike)).bind ?_
  intro ls ms hlayouts
  have hempty : ls.isEmpty = ms.isEmpty := by cases hlayouts <;> rfl
  rw [hempty]
  by_cases hnone : ms.isEmpty = true
  · rw [if_pos hnone, if_pos hnone]
    exact .error (.refl _)
  rw [if_neg hnone, if_neg hnone]
  refine hread.bind ?_
  intro t u hcells
  refine ((Template.forbid_alike hcells _ fun _ _ => rfl).mapError
    Diagnostic.SameFault.sameCause).next ?_
  intro _
  refine ((gather_alike hlayouts 0 []).mapError Diagnostic.SameFault.sameCause).next ?_
  intro sources
  refine (Alike.refl .refl (Overflow.ofValue s.overflow)).next ?_
  intro policy
  rw [Layout.fields_congr (l := ⟨t⟩) (m := ⟨u⟩) hcells]
  refine ((Alike.mapM_same fun f _ => link_alike ⟨t⟩ ⟨u⟩ sources policy f).mapError
    Diagnostic.SameFault.sameCause).next ?_
  intro slots
  rw [hlayouts.length_eq, Program.transfer_congr (l := ⟨t⟩) (m := ⟨u⟩) hcells]
  refine (Alike.refl .refl _).next ?_
  intro executor
  exact .ok ⟨rfl, hlayouts.length_eq, hcells, rfl⟩

end Transfer

/-- Two operations compile to the same text. -/
def Operation.SameSource (op op' : Operation) : Prop :=
  ∃ text, op.source = .ok text ∧ op'.source = .ok text

theorem Operation.sameSource_of_function {op op' : Operation} {f : Program.Function}
    (h : op.function "run" none = .ok f)
    (hsame : op.function "run" none = op'.function "run" none) : op.SameSource op' := by
  refine ⟨f.text, ?_, ?_⟩
  · rw [source, h]
    rfl
  · rw [source, ← hsame, h]
    rfl

theorem Template.sameReading_of_expansion {text : String} {t : Template}
    (h : ofText (.text text) (.base .hexadecimal) = .ok t) :
    SameReading (.base .hexadecimal) (.base .binary) (.text text) (.text t.cellText) := by
  obtain ⟨u, hu, hcells⟩ := t.exists_expansion
  have hleft : ofValue (.text text) (.base .hexadecimal) = .ok t := h
  have hright : ofValue (.text t.cellText) (.base .binary) = .ok u := hu
  rw [SameReading, hleft, hright]
  exact .ok hcells.symm

/-- A template of base sixteen behaves as the binary template of its cells. That template has the
same cells, and operations of all kinds and under all settings are made of the one exactly if they
are made of the other, or else refused for the same cause. They have the same shapes or slots,
compile to the same text, and give the same results or errors of the same cause. -/
theorem hexadecimal_eq_expansion (fallback : Option String) :
    (∀ text t, Template.ofText (.text text) (.base .hexadecimal) = .ok t →
      (∃ u, Template.ofText (.text t.cellText) (.base .binary) = .ok u ∧ u.cells = t.cells ∧
        u.same t = true) ∧
      (∀ s : Extraction.Settings, Alike SameCause
        (fun x y => x.shaped = y.shaped ∧
          Operation.SameSource (.extraction x) (.extraction y) ∧
          ∀ value, x.run value = y.run value)
        (Extraction.make { s with template := .text text, base := .base .hexadecimal } fallback)
        (Extraction.make { s with template := .text t.cellText, base := .base .binary }
          fallback)) ∧
      (∀ s : StorageSettings, Alike SameCause
        (fun c d => c.slots = d.slots ∧
          Operation.SameSource (.combination c) (.combination d) ∧
          ∀ values keywords, Alike SameCause Eq (c.call values keywords) (d.call values keywords))
        (Combination.make { s with template := .text text, base := .base .hexadecimal } fallback)
        (Combination.make { s with template := .text t.cellText, base := .base .binary }
          fallback)) ∧
      ∀ s : StorageSettings, Alike SameCause
        (fun r q => r.slots = q.slots ∧
          Operation.SameSource (.replacement r) (.replacement q) ∧
          ∀ target values keywords, Alike SameCause Eq (r.call target values keywords)
            (q.call target values keywords))
        (Replacement.make { s with template := .text text, base := .base .hexadecimal } fallback)
        (Replacement.make { s with template := .text t.cellText, base := .base .binary }
          fallback)) ∧
    ∀ texts ts output u, List.Forall₂ (fun text t =>
        Template.ofText (.text text) (.base .hexadecimal) = .ok t) texts ts →
      Template.ofText (.text output) (.base .hexadecimal) = .ok u →
      ∀ s : Transfer.Settings, Alike SameCause
        (fun x y => x.slots = y.slots ∧ Operation.SameSource (.transfer x) (.transfer y) ∧
          ∀ values, x.run values = y.run values)
        (Transfer.make
          { s with
            inputs := .list (texts.map .text)
            output := .text output
            base := .base .hexadecimal } fallback)
        (Transfer.make
          { s with
            inputs := .list (ts.map fun t => .text t.cellText)
            output := .text u.cellText
            base := .base .binary } fallback) := by
  refine ⟨?_, ?_⟩
  · intro text t ht
    have hread := Template.sameReading_of_expansion ht
    refine ⟨?_, ?_, ?_, ?_⟩
    · obtain ⟨u, hu, hcells⟩ := t.exists_expansion
      exact ⟨u, hu, hcells, by simp [Template.same, hcells]⟩
    · intro s
      refine (Extraction.make_alike hread s fallback).imp ?_
      intro x y hx hxy
      obtain ⟨_, f, hf, _⟩ := Extraction.make_engines hx
      exact ⟨hxy.shaped, Operation.sameSource_of_function hf (hxy.function_eq _ _), hxy.run_eq⟩
    · intro s
      refine (Combination.make_alike hread s fallback).imp ?_
      intro c d hc hcd
      obtain ⟨_, f, hf, _⟩ := Combination.make_engines hc
      exact ⟨hcd.slots, Operation.sameSource_of_function hf (Combination.function_eq hcd _),
        Combination.call_alike hcd⟩
    · intro s
      refine (Replacement.make_alike hread s fallback).imp ?_
      intro r q hr hrq
      obtain ⟨_, f, hf, _⟩ := Replacement.make_engines hr
      exact ⟨hrq.slots, Operation.sameSource_of_function hf (Replacement.function_eq hrq _),
        Replacement.call_alike hrq⟩
  · intro texts ts output u htexts hu s
    have hinputs : List.Forall₂ (SameReading (.base .hexadecimal) (.base .binary))
        (texts.map .text) (ts.map fun t => .text t.cellText) := by
      rw [List.forall₂_map_left_iff, List.forall₂_map_right_iff]
      exact htexts.imp fun _ _ => Template.sameReading_of_expansion
    refine (Transfer.make_alike rfl rfl hinputs (Template.sameReading_of_expansion hu) s
      fallback).imp ?_
    intro x y hx hxy
    obtain ⟨f, hf, _⟩ := Transfer.make_engines hx
    exact ⟨hxy.slots, Operation.sameSource_of_function hf (hxy.function_eq _), hxy.run_eq⟩

/-- A letter of two separate digits, placeholders, and a literal digit in an output. -/
theorem hexadecimal_eq_expansion_mixed :
    ∃ t u, Template.ofText (.text "ab.a") (.base .hexadecimal) = .ok t ∧
      Template.ofText (.text "b8aa") (.base .hexadecimal) = .ok u ∧
      t.cellText = "aaaabbbb....aaaa" ∧ u.cellText = "bbbb1000aaaaaaaa" ∧
      (∃ x y, Extraction.make ⟨.text "ab.a", .base .hexadecimal, .precision .standard, .none,
          .bool true, .none⟩ none = .ok x ∧
        Extraction.make ⟨.text "aaaabbbb....aaaa", .base .binary, .precision .standard, .none,
          .bool true, .none⟩ none = .ok y ∧
        x.shaped = y.shaped ∧ ∀ value, x.run value = y.run value) ∧
      ∃ x y, Transfer.make ⟨.list [.text "ab.a"], .text "b8aa", .base .hexadecimal,
          .overflow .panic, .none⟩ none = .ok x ∧
        Transfer.make ⟨.list [.text "aaaabbbb....aaaa"], .text "bbbb1000aaaaaaaa",
          .base .binary, .overflow .panic, .none⟩ none = .ok y ∧
        x.slots = y.slots ∧ ∀ values, x.run values = y.run values := by
  have ht : (Template.ofText (.text "ab.a") (.base .hexadecimal)).map Template.cellText =
      .ok "aaaabbbb....aaaa" := by rfl
  have hu : (Template.ofText (.text "b8aa") (.base .hexadecimal)).map Template.cellText =
      .ok "bbbb1000aaaaaaaa" := by rfl
  have hx : (Extraction.make ⟨.text "ab.a", .base .hexadecimal, .precision .standard, .none,
      .bool true, .none⟩ none).map Extraction.named = .ok true := by rfl
  have hy : (Transfer.make ⟨.list [.text "ab.a"], .text "b8aa", .base .hexadecimal,
      .overflow .panic, .none⟩ none).map (fun x => x.inputs.length) = .ok 1 := by rfl
  rw [map_eq_ok_iff] at ht hu hx hy
  obtain ⟨t, ht, htext⟩ := ht
  obtain ⟨u, hu, hutext⟩ := hu
  obtain ⟨x, hx, _⟩ := hx
  obtain ⟨y, hy, _⟩ := hy
  obtain ⟨hsingle, htransfer⟩ := hexadecimal_eq_expansion none
  obtain ⟨_, hextraction, _, _⟩ := hsingle "ab.a" t ht
  obtain ⟨x', hx', hshaped, _, hrun⟩ := (hextraction { template := .none }).exists_of_ok hx
  obtain ⟨y', hy', hslots, _, hrun'⟩ := (htransfer ["ab.a"] [t] "b8aa" u (.cons ht .nil) hu
    ⟨.none, .none, .none, .overflow .panic, .none⟩).exists_of_ok hy
  rw [htext] at hx'
  rw [List.map_cons, List.map_nil, htext, hutext] at hy'
  exact ⟨t, u, ht, hu, htext, hutext, ⟨x, x', hx, hx', hshaped, hrun⟩,
    y, y', hy, hy', hslots, hrun'⟩

end BitTemplate
