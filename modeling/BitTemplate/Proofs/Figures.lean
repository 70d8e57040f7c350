import BitTemplate.Number
import BitTemplate.Operation.Basic
import BitTemplate.Proofs.Engines

/-!
The numbers that generated code is written with. Each is written in the digits of a width: the masks
of a field in the width of the template that it is taken from or stored in, the limit of a slot in
the width of its field, and the masks, the literals and the full mask of a template in the width of
the template. All of them fit, so that there is code for every operation, and an operation can be
made for one engine exactly if it can be made for the other.
-/
namespace BitTemplate

open Failure

theorem Number.fitting_int (n : Int) (width : Nat) :
    fitting (.int n) (.int width) =
      if 0 ≤ n ∧ n < 2 ^ width then .ok (n.toNat, width) else .error (.doesNotFit n width) := by
  have hfits : 0 ≤ n ∧ n.toNat < 1 <<< (width : Int).toNat ↔ 0 ≤ n ∧ n < 2 ^ width := by
    rw [Nat.one_shiftLeft, Int.toNat_natCast]
    refine and_congr_right fun hn => ?_
    rw [Int.toNat_lt hn]
    push_cast
    rfl
  unfold fitting
  rw [integer_eq_ok _ n rfl, integer_eq_ok _ (width : Int) rfl, ok_bind, ok_bind,
    if_neg (by omega)]
  exact if_congr hfits rfl rfl

/-- A number, and the width in whose digits it is written. -/
structure Figure where
  number : Nat
  width : Nat

namespace Figure

def Fits (n : Figure) : Prop := n.number < 2 ^ n.width

/-- A number that is written only if it is not zero. -/
def unlessZero (n : Figure) : List Figure := if n.number = 0 then [] else [n]

/-- The number with all bits of a width set. -/
def full (width : Nat) : Figure := ⟨2 ^ width - 1, width⟩

theorem full_fits (width : Nat) : (full width).Fits :=
  Nat.sub_one_lt (Nat.two_pow_pos width).ne'

/-- A number that fits can be written. -/
theorem Fits.hex_eq {n : Figure} (h : n.Fits) :
    Number.hex (.int n.number) (.int n.width) = .ok (Text.fixedHex n.number n.width) := by
  have hfits : 0 ≤ (n.number : Int) ∧ (n.number : Int) < 2 ^ n.width :=
    ⟨Int.natCast_nonneg _, by exact_mod_cast h⟩
  rw [Number.hex, Number.fitting_int, if_pos hfits, map_ok]
  rfl

end Figure

/-- The masks of the segments of a field, written in a width. -/
def Field.figures (f : Field) (width : Nat) : List Figure := f.segments.map fun s => ⟨s.mask, width⟩

theorem Field.figures_fit (f : Field) : ∀ n ∈ f.figures f.templateWidth, n.Fits := by
  intro n hn
  obtain ⟨s, hs, rfl⟩ := List.mem_map.mp hn
  have hlt := f.segment_mask_lt hs
  rwa [Nat.one_shiftLeft] at hlt

/-- The limit of a slot whose values may be too large. -/
def Slot.figures (slot : Slot) : List Figure := if slot.checked then [.full slot.width] else []

/-- The numbers for storing values in slots: their limits, the mask of what is kept of a target, the
masks of the fields, the literals, and the full mask that cuts off what spills. -/
def Layout.figures (l : Layout) (slots : List Slot) (kept : Bool) : List Figure :=
  slots.flatMap Slot.figures ++
    ((if kept then Figure.unlessZero ⟨l.template.placeholderMask, l.width⟩ else []) ++
      slots.flatMap (fun slot => slot.field.figures l.width) ++
      Figure.unlessZero ⟨l.template.literalValue, l.width⟩ ++
      if slots.any Slot.spills then [.full l.width] else [])

/-- The numbers for taking a field out of an integer. A truth value needs the mask of the field
alone. -/
def Extraction.figures (x : Extraction) : List Figure :=
  x.shaped.flatMap fun pair =>
    if pair.2 = .boolean then [⟨pair.1.mask, x.layout.width⟩] else pair.1.figures x.layout.width

/-- The numbers for a transfer. Each field is taken out in the width of its own input. -/
def Transfer.figures (t : Transfer) : List Figure :=
  t.slots.flatMap (fun pair =>
      pair.2.field.figures ((t.inputs[pair.2.index]?.map Layout.width).getD 0)) ++
    t.output.figures (t.slots.map Prod.fst) false

/-- The numbers that the code of an operation needs, in their order. -/
def Operation.figures : Operation → List Figure
  | .extraction x => x.figures
  | .combination c => c.layout.figures c.slots false
  | .replacement r => r.layout.figures r.slots true
  | .transfer t => t.figures

namespace Program

def Constant.figure (c : Constant) : Figure := ⟨c.value, c.width⟩

theorem Constant.figure_of_ofNat {value width : Nat} {c : Constant}
    (h : ofNat value width = .ok c) : c.figure = ⟨value, width⟩ := by
  unfold ofNat at h
  split at h
  · cases h
    rfl
  · cases h

theorem Constant.figure_full (width : Nat) : (full width).figure = .full width := by
  rw [Figure.full, ← Nat.one_shiftLeft]
  rfl

def Term.figures : Term → List Figure
  | .name _ => []
  | .constant c => [c.figure]
  | .mask t c => t.figures ++ [c.figure]
  | .left t _ => t.figures
  | .right t _ => t.figures

def Expr.figures : Expr → List Figure
  | .union terms => terms.flatMap Term.figures
  | .bounded terms c => terms.flatMap Term.figures ++ [c.figure]
  | .test _ c => [c.figure]

def Step.figures : Step → List Figure
  | .refuse _ _ limit => [limit.figure]
  | .clamp _ _ limit => [limit.figure]
  | .assign _ e => e.figures

def Return.figures : Return → List Figure
  | .value e => e.figures
  | .tuple items => items.flatMap Expr.figures
  | .record _ items => items.flatMap Expr.figures

/-- The numbers in the text of a function. -/
def Function.figures (f : Function) : List Figure :=
  f.steps.flatMap Step.figures ++ f.result.figures

/-- What each item is written with, the list is written with. -/
theorem flatMap_of_mapM {α β : Type} {f : α → Except Error β} {g : β → List Figure}
    {k : α → List Figure} {xs : List α} {ys : List β}
    (hg : ∀ a ∈ xs, ∀ b, f a = .ok b → g b = k a) (h : xs.mapM f = .ok ys) :
    ys.flatMap g = xs.flatMap k := by
  rw [List.flatMap_def, List.flatMap_def, map_eq_of_mapM hg h]

theorem figures_extractTerm {width : Nat} {source : Name} {s : Segment} {t : Term}
    (h : extractTerm width source s = .ok t) : t.figures = [⟨s.mask, width⟩] := by
  obtain ⟨c, hc, hterm⟩ := (bind_eq_ok_iff _ _ _).mp h
  rw [← Constant.figure_of_ofNat hc]
  split at hterm
  · cases hterm
    rfl
  · split at hterm <;> cases hterm <;> rfl

theorem figures_extract {width : Nat} {f : Field} {source : Name} {shape : Option Shape} {e : Expr}
    (h : extract width f source shape = .ok e) :
    e.figures = if shape = some .boolean then [⟨f.mask, width⟩] else f.figures width := by
  unfold extract at h
  split at h
  · obtain ⟨c, hc, hexpr⟩ := (bind_eq_ok_iff _ _ _).mp h
    cases hexpr
    rw [if_pos rfl, ← Constant.figure_of_ofNat hc]
    rfl
  · rename_i hshape
    obtain ⟨terms, hterms, hexpr⟩ := (bind_eq_ok_iff _ _ _).mp h
    cases hexpr
    rw [if_neg hshape, Field.figures, List.map_eq_flatMap]
    exact flatMap_of_mapM (fun s _ t ht => figures_extractTerm ht) hterms

/-- Only two of the policies write the limit of a slot down. -/
theorem figures_adapt (slot : Slot) (source : Name) (fresh : Nat) :
    ((adapt slot source fresh).1.flatMap Step.figures).Sublist slot.figures := by
  unfold adapt Slot.figures
  split
  · rw [← Constant.figure_full]
    cases slot.overflow with
    | panic => exact .refl _
    | saturate => exact .refl _
    | truncate => exact List.nil_sublist _
    | corrupt => exact List.nil_sublist _
  · exact .refl _

theorem figures_adaptAll (slots : List Slot) (fresh : Nat) :
    ((adaptAll slots fresh).1.flatMap Step.figures).Sublist (slots.flatMap Slot.figures) := by
  induction slots generalizing fresh with
  | nil => exact .refl _
  | cons slot rest ih =>
    rw [adaptAll_cons, List.flatMap_append, List.flatMap_cons]
    exact (figures_adapt slot _ fresh).append (ih _)

theorem figures_depositTerm {width : Nat} {source : Name} {s : Segment} {t : Term}
    (h : depositTerm width source s = .ok t) : t.figures = [⟨s.mask, width⟩] := by
  obtain ⟨c, hc, hterm⟩ := (bind_eq_ok_iff _ _ _).mp h
  cases hterm
  rw [← Constant.figure_of_ofNat hc, Term.figures]
  split
  · rfl
  · split <;> rfl

/-- Excess is moved without a mask, so a slot that spills is written with the same numbers. -/
theorem figures_deposit {width : Nat} {slot : Slot} {source : Name} {terms : List Term}
    (h : deposit width slot source = .ok terms) :
    terms.flatMap Term.figures = slot.field.figures width := by
  obtain ⟨parts, hparts, hterms⟩ := (bind_eq_ok_iff _ _ _).mp h
  have hfigures : parts.flatMap Term.figures = slot.field.figures width := by
    rw [Field.figures, List.map_eq_flatMap]
    exact flatMap_of_mapM (fun s _ t ht => figures_depositTerm ht) hparts
  split at hterms
  · cases hterms
    simp [hfigures, Term.figures]
  · cases hterms
    exact hfigures

theorem figures_stored {width : Nat} {slots : List Slot} {sources : List Name}
    (hlength : sources.length = slots.length) {stored : List (List Term)}
    (h : (slots.zip sources).mapM (fun pair => deposit width pair.1 pair.2) = .ok stored) :
    stored.flatten.flatMap Term.figures = slots.flatMap fun slot => slot.field.figures width := by
  have hzip := flatMap_of_mapM (g := fun terms => terms.flatMap Term.figures)
    (k := fun pair => pair.1.field.figures width)
    (fun pair _ terms hterms => figures_deposit hterms) h
  have hslots : (slots.zip sources).map Prod.fst = slots := List.map_fst_zip hlength.ge
  rw [← List.flatMap_id, List.flatMap_assoc]
  refine hzip.trans ?_
  rw [← List.flatMap_map Prod.fst fun slot : Slot => slot.field.figures width, hslots]

theorem figures_unlessZero {n width : Nat} {term : Constant → Term} {terms : List Term}
    (hterm : ∀ c, (term c).figures = [c.figure]) (h : unlessZero n width term = .ok terms) :
    terms.flatMap Term.figures = Figure.unlessZero ⟨n, width⟩ := by
  unfold unlessZero at h
  unfold Figure.unlessZero
  split at h
  · rename_i hzero
    cases h
    rw [if_pos hzero]
    rfl
  · rename_i hzero
    obtain ⟨c, hc, rfl⟩ := (map_eq_ok_iff _ _ _).mp h
    rw [if_neg hzero, List.flatMap_singleton, hterm, Constant.figure_of_ofNat hc]

/-- What the code that stores values is put together from. -/
theorem combine_eq_ok {layout : Layout} {slots : List Slot} {kept : Option Name}
    {steps : List Step} {e : Expr} (h : combine layout slots kept = .ok (steps, e)) :
    ∃ keptTerms stored fixed,
      (kept.elim (.ok []) fun x =>
        unlessZero layout.template.placeholderMask layout.width (.mask (.name x))) =
          .ok keptTerms ∧
      (slots.zip (adaptAll slots 0).2).mapM (fun pair => deposit layout.width pair.1 pair.2) =
        .ok stored ∧
      unlessZero layout.template.literalValue layout.width .constant = .ok fixed ∧
      steps = (adaptAll slots 0).1 ∧
      e = if slots.any Slot.spills then
          .bounded (keptTerms ++ stored.flatten ++ fixed) (.full layout.width)
        else .union (keptTerms ++ stored.flatten ++ fixed) := by
  -- Whether bits are kept or not, the rest of the code is made in the same way.
  have hbind : ((kept.elim (.ok []) fun x =>
      unlessZero layout.template.placeholderMask layout.width (.mask (.name x))) >>=
        fun keptTerms => do
          let stored ← (slots.zip (adaptAll slots 0).2).mapM fun pair =>
            deposit layout.width pair.1 pair.2
          let fixed ← unlessZero layout.template.literalValue layout.width .constant
          let terms := keptTerms ++ stored.flatten ++ fixed
          if slots.any Slot.spills then
            return ((adaptAll slots 0).1, .bounded terms (.full layout.width))
          else return ((adaptAll slots 0).1, .union terms)) = .ok (steps, e) := by
    cases kept with
    | none => exact h
    | some x => exact h
  obtain ⟨keptTerms, hkept, hrest⟩ := (bind_eq_ok_iff _ _ _).mp hbind
  obtain ⟨stored, hstored, hrest⟩ := (bind_eq_ok_iff _ _ _).mp hrest
  obtain ⟨fixed, hfixed, hresult⟩ := (bind_eq_ok_iff _ _ _).mp hrest
  refine ⟨keptTerms, stored, fixed, hkept, hstored, hfixed, ?_⟩
  split at hresult
  · rename_i hspills
    cases hresult
    exact ⟨rfl, (if_pos hspills).symm⟩
  · rename_i hspills
    cases hresult
    exact ⟨rfl, (if_neg hspills).symm⟩

theorem figures_combine {layout : Layout} {slots : List Slot} {kept : Option Name}
    {steps : List Step} {e : Expr} (h : combine layout slots kept = .ok (steps, e)) :
    (steps.flatMap Step.figures ++ e.figures).Sublist (layout.figures slots kept.isSome) := by
  obtain ⟨keptTerms, stored, fixed, hkept, hstored, hfixed, rfl, rfl⟩ := combine_eq_ok h
  have hkeptFigures : keptTerms.flatMap Term.figures = if kept.isSome then
      Figure.unlessZero ⟨layout.template.placeholderMask, layout.width⟩ else [] := by
    cases kept with
    | none =>
      cases hkept
      rfl
    | some x => exact figures_unlessZero (fun c => rfl) hkept
  have hstoredFigures := figures_stored (length_adaptAll slots 0) hstored
  have hfixedFigures := figures_unlessZero (fun c => rfl) hfixed
  have hsteps := figures_adaptAll slots 0
  unfold Layout.figures
  rw [← hkeptFigures, ← hstoredFigures, ← hfixedFigures]
  split
  · rw [Expr.figures, Constant.figure_full, List.flatMap_append, List.flatMap_append]
    exact hsteps.append (.refl _)
  · rw [List.append_nil, Expr.figures, List.flatMap_append, List.flatMap_append]
    exact hsteps.append (.refl _)

end Program

/-- The numbers for storing values in the fields of a layout fit. -/
theorem Layout.figures_fit {l : Layout} {slots : List Slot}
    (h : slots.map Slot.field = l.fields) (kept : Bool) : ∀ n ∈ l.figures slots kept, n.Fits := by
  have hmask : ∀ kind, ∀ n ∈ Figure.unlessZero ⟨maskOf kind l.template.cells, l.width⟩, n.Fits := by
    intro kind n hn
    have hlt := maskOf_lt kind l.template.cells
    rw [Template.length_cells, Nat.one_shiftLeft] at hlt
    unfold Figure.unlessZero at hn
    split at hn
    · cases hn
    · rw [List.mem_singleton.mp hn]
      exact hlt
  intro n hn
  simp only [figures, List.mem_append, List.mem_flatMap] at hn
  rcases hn with ⟨slot, _, hn⟩ | ((hn | ⟨slot, hslot, hn⟩) | hn) | hn
  · unfold Slot.figures at hn
    split at hn
    · rw [List.mem_singleton.mp hn]
      exact Figure.full_fits _
    · cases hn
  · split at hn
    · exact hmask Cell.isPlaceholder n hn
    · cases hn
  · rw [← l.templateWidth_of_mem (field_of_slot h hslot)] at hn
    exact slot.field.figures_fit n hn
  · exact hmask Cell.isOne n hn
  · split at hn
    · rw [List.mem_singleton.mp hn]
      exact Figure.full_fits _
    · cases hn

theorem Extraction.figures_fit {x : Extraction} (h : x.shaped.map Prod.fst = x.layout.fields) :
    ∀ n ∈ x.figures, n.Fits := by
  intro n hn
  obtain ⟨pair, hpair, hn⟩ := List.mem_flatMap.mp hn
  have hfield : pair.1 ∈ x.layout.fields := h ▸ List.mem_map_of_mem hpair
  rw [← x.layout.templateWidth_of_mem hfield] at hn
  split at hn
  · rw [List.mem_singleton.mp hn]
    have hlt := pair.1.mask_lt
    rwa [Nat.one_shiftLeft] at hlt
  · exact pair.1.figures_fit n hn

namespace Transfer

/-- The field of a slot is taken out in the width of the template that it comes from. -/
theorem inputWidth_of_make {s : Settings} {fallback : Option String} {t : Transfer}
    (h : make s fallback = .ok t) {pair : Slot × Program.Source} (hpair : pair ∈ t.slots) :
    (t.inputs[pair.2.index]?.map Layout.width).getD 0 = pair.2.field.templateWidth := by
  obtain ⟨_, _, _, sources, _, _, _, _, _, _, _, _, hsources, _, hslots, _⟩ :=
    (make_eq_ok_iff s fallback t).mp h
  obtain ⟨hsource, _, _⟩ := (mapM_link_eq_ok hslots).2 pair hpair
  obtain ⟨_, l, hl, hfield⟩ := field_of_source hsources hsource
  rw [hl, Option.map_some, Option.getD_some, l.templateWidth_of_mem hfield]

theorem slotFields_of_make {s : Settings} {fallback : Option String} {t : Transfer}
    (h : make s fallback = .ok t) : (t.slots.map Prod.fst).map Slot.field = t.output.fields := by
  obtain ⟨_, _, _, _, _, _, _, _, _, _, _, _, _, _, hslots, _⟩ :=
    (make_eq_ok_iff s fallback t).mp h
  rw [← (mapM_link_eq_ok hslots).1, List.map_map]
  rfl

theorem figures_fit {s : Settings} {fallback : Option String} {t : Transfer}
    (h : make s fallback = .ok t) : ∀ n ∈ t.figures, n.Fits := by
  intro n hn
  rcases List.mem_append.mp hn with hn | hn
  · obtain ⟨pair, hpair, hn⟩ := List.mem_flatMap.mp hn
    rw [inputWidth_of_make h hpair] at hn
    exact pair.2.field.figures_fit n hn
  · exact Layout.figures_fit (slotFields_of_make h) false n hn

end Transfer

namespace Program

theorem figures_extraction {x : Extraction} {name : String} {record : Option String}
    {f : Function} (h : x.function name record = .ok f) : f.figures = x.figures := by
  obtain ⟨items, hitems, hf⟩ := (bind_eq_ok_iff _ _ _).mp h
  have hfigures : items.flatMap Expr.figures = x.figures := by
    refine flatMap_of_mapM ?_ hitems
    intro pair _ e he
    simpa using figures_extract he
  cases hf
  cases record with
  | none => exact hfigures
  | some record => exact hfigures

theorem figures_combination {name : String} {layout : Layout} {slots : List Slot} {f : Function}
    (h : combination name layout slots = .ok f) :
    f.figures.Sublist (layout.figures slots false) := by
  obtain ⟨⟨steps, e⟩, hcombine, hf⟩ := (bind_eq_ok_iff _ _ _).mp h
  cases hf
  exact figures_combine hcombine

theorem figures_replacement {name : String} {layout : Layout} {slots : List Slot} {f : Function}
    (h : replacement name layout slots = .ok f) :
    f.figures.Sublist (layout.figures slots true) := by
  obtain ⟨⟨steps, e⟩, hcombine, hf⟩ := (bind_eq_ok_iff _ _ _).mp h
  cases hf
  exact figures_combine hcombine

theorem figures_transfer {s : Transfer.Settings} {fallback : Option String} {t : Transfer}
    (hmake : Transfer.make s fallback = .ok t) {name : String} {f : Function}
    (h : transfer name t.inputs.length t.output t.slots = .ok f) :
    f.figures.Sublist t.figures := by
  obtain ⟨assigned, hassigned, hrest⟩ := (bind_eq_ok_iff _ _ _).mp h
  obtain ⟨⟨steps, e⟩, hcombine, hf⟩ := (bind_eq_ok_iff _ _ _).mp hrest
  cases hf
  have htaken : assigned.flatMap Step.figures = t.slots.flatMap fun pair =>
      pair.2.field.figures ((t.inputs[pair.2.index]?.map Layout.width).getD 0) := by
    refine flatMap_of_mapM ?_ hassigned
    intro pair hpair step hstep
    obtain ⟨e, he, hassign⟩ := (bind_eq_ok_iff _ _ _).mp hstep
    cases hassign
    rw [Transfer.inputWidth_of_make hmake hpair]
    exact (figures_extract he).trans (if_neg (by simp))
  rw [Function.figures, List.flatMap_append, htaken, List.append_assoc]
  exact List.Sublist.append (.refl _) (figures_combine hcombine)

end Program

namespace Operation

/-- The operations that can be made, for either engine. -/
inductive Made : Operation → Prop
  | extraction {s : Extraction.Settings} {fallback : Option String} {x : Extraction}
      (h : Extraction.make s fallback = .ok x) : Made (.extraction x)
  | combination {s : StorageSettings} {fallback : Option String} {c : Combination}
      (h : Combination.make s fallback = .ok c) : Made (.combination c)
  | replacement {s : StorageSettings} {fallback : Option String} {r : Replacement}
      (h : Replacement.make s fallback = .ok r) : Made (.replacement r)
  | transfer {s : Transfer.Settings} {fallback : Option String} {t : Transfer}
      (h : Transfer.make s fallback = .ok t) : Made (.transfer t)

theorem Made.figures_fit {op : Operation} (h : op.Made) : ∀ n ∈ op.figures, n.Fits := by
  cases h with
  | extraction h => exact Extraction.figures_fit (Extraction.make_engines h).1
  | combination h => exact Layout.figures_fit (Combination.make_engines h).1 false
  | replacement h => exact Layout.figures_fit (Replacement.make_engines h).1 true
  | transfer h => exact Transfer.figures_fit h

/-- There is code for every operation, written with no other numbers. -/
theorem Made.exists_function {op : Operation} (h : op.Made) (name : String)
    (record : Option String) :
    ∃ f, op.function name record = .ok f ∧ f.figures.Sublist op.figures := by
  cases h with
  | extraction h =>
    obtain ⟨f, hf, _⟩ := Extraction.exists_function (Extraction.make_engines h).1 name record
    exact ⟨f, hf, Program.figures_extraction hf ▸ .refl _⟩
  | @combination _ _ c h =>
    obtain ⟨hwidth, hnodup, _⟩ := Layout.slots_of_fields (Combination.make_engines h).1
    obtain ⟨f, hf, _⟩ := Program.exists_combination c.layout c.slots hwidth hnodup name
    exact ⟨f, hf, Program.figures_combination hf⟩
  | @replacement _ _ r h =>
    obtain ⟨hwidth, hnodup, _⟩ := Layout.slots_of_fields (Replacement.make_engines h).1
    obtain ⟨f, hf, _⟩ := Program.exists_replacement r.layout r.slots hwidth hnodup name
    exact ⟨f, hf, Program.figures_replacement hf⟩
  | @transfer _ _ t h =>
    obtain ⟨hwidth, hnodup, hindex⟩ := Transfer.slots_of_make h
    obtain ⟨f, hf, _⟩ := Program.exists_transfer name t.inputs.length t.output t.slots hwidth hnodup
      hindex
    exact ⟨f, hf, Program.figures_transfer h hf⟩

end Operation

/-- Where there is code, running it and doing without it differ in the executor alone. -/
theorem Executor.prepare_engines {α : Type} {code : Except Error Program.Function}
    {f : Program.Function} (hcode : code = .ok f) (build : Executor → α) {interpreted : α → α}
    (hbuild : ∀ executor, interpreted (build executor) = build .interpreted) :
    (prepare .compiled code >>= fun executor => .ok (build executor)).map interpreted =
      prepare .interpreted code >>= fun executor => .ok (build executor) := by
  rw [prepare_compiled hcode, prepare_interpreted, ok_bind, ok_bind, map_ok, hbuild]

section Engines

variable {u u' : Value} {fallback fallback' : Option String}
  (hcompiled : Engine.select u fallback = .ok .compiled)
  (hinterpreted : Engine.select u' fallback' = .ok .interpreted)

include hcompiled hinterpreted

theorem Extraction.make_interpreted (s : Extraction.Settings) :
    (Extraction.make { s with engine := u } fallback).map
        (fun x => { x with executor := .interpreted }) =
      Extraction.make { s with engine := u' } fallback' := by
  unfold Extraction.make
  rw [hcompiled, hinterpreted, ok_bind, ok_bind]
  refine map_bind_eq fun template _ => map_bind_eq fun _ _ => map_bind_eq fun precision _ =>
    map_bind_eq fun minimum _ => map_bind_eq fun shaped hshaped => ?_
  have hwidth : ∀ pair ∈ shaped, pair.1.templateWidth = (⟨template⟩ : Layout).width := by
    intro pair hpair
    apply Layout.templateWidth_of_mem
    rw [← Extraction.fields_of_shaped hshaped]
    exact List.mem_map_of_mem hpair
  obtain ⟨f, hf, _⟩ := Program.exists_extraction "run" none _ shaped hwidth
  exact Executor.prepare_engines hf _ fun _ => rfl

theorem Depositing.make_interpreted (accept : Template → Except Diagnostic Unit)
    {code : Layout → List Slot → Except Error Program.Function} (hcode : Generates code)
    (s : StorageSettings) :
    (Depositing.make accept code { s with engine := u } fallback).map
        (fun d => { d with executor := .interpreted }) =
      Depositing.make accept code { s with engine := u' } fallback' := by
  unfold Depositing.make
  rw [hcompiled, hinterpreted, ok_bind, ok_bind]
  refine map_bind_eq fun template _ => map_bind_eq fun _ _ => map_bind_eq fun slots hslots => ?_
  obtain ⟨_, _, hfields, _⟩ := Layout.makeSlots_eq_ok hslots
  obtain ⟨f, hf⟩ := hcode ⟨template⟩ slots hfields
  exact Executor.prepare_engines hf _ fun _ => rfl

theorem Combination.make_interpreted (s : StorageSettings) :
    (Combination.make { s with engine := u } fallback).map
        (fun c => { c with executor := .interpreted }) =
      Combination.make { s with engine := u' } fallback' := by
  have h := Depositing.make_interpreted hcompiled hinterpreted accept
    (Depositing.generates_combination "run") s
  rw [Combination.make, Combination.make, ← h, map_map, map_map]
  rfl

theorem Replacement.make_interpreted (s : StorageSettings) :
    (Replacement.make { s with engine := u } fallback).map
        (fun r => { r with executor := .interpreted }) =
      Replacement.make { s with engine := u' } fallback' := by
  have h := Depositing.make_interpreted hcompiled hinterpreted accept
    (Depositing.generates_replacement "run") s
  rw [Replacement.make, Replacement.make, ← h, map_map, map_map]
  rfl

theorem Transfer.make_interpreted (s : Transfer.Settings) :
    (Transfer.make { s with engine := u } fallback).map
        (fun t => { t with executor := .interpreted }) =
      Transfer.make { s with engine := u' } fallback' := by
  unfold Transfer.make
  rw [hcompiled, hinterpreted, ok_bind, ok_bind]
  refine map_bind_eq fun values _ => map_bind_eq fun inputs _ => ?_
  by_cases hempty : inputs.isEmpty = true
  · rw [if_pos hempty, if_pos hempty, map_error]
  rw [if_neg hempty, if_neg hempty]
  refine map_bind_eq fun template _ => map_bind_eq fun _ _ => map_bind_eq fun sources hsources =>
    map_bind_eq fun policy _ => map_bind_eq fun slots hslots => ?_
  obtain ⟨hwidth, hnodup, hindex⟩ := Transfer.slots_of_link
    ((mapError_eq_ok_iff _ _ _).mp hsources) ((mapError_eq_ok_iff _ _ _).mp hslots)
  obtain ⟨f, hf, _⟩ := Program.exists_transfer "run" inputs.length ⟨template⟩ slots hwidth hnodup
    hindex
  exact Executor.prepare_engines hf _ fun _ => rfl

end Engines

/-- Generating code never fails. The numbers that the code of an operation needs fit the widths in
which they are written, so they can be written, and there is code for the operation under any name,
which is written with them. Making an operation for the engine that runs its code gives the same as
making it for the other engine, apart from the executor, or fails with the same error. -/
theorem code_of_made :
    (∀ op : Operation, op.Made →
      (∀ n ∈ op.figures, n.number < 2 ^ n.width ∧
        Number.hex (.int n.number) (.int n.width) = .ok (Text.fixedHex n.number n.width)) ∧
      (∀ name record, ∃ f, op.function name record = .ok f ∧ f.figures.Sublist op.figures) ∧
      ∃ f, op.function "run" none = .ok f ∧ op.source = .ok f.text) ∧
    ∀ u u' fallback fallback', Engine.select u fallback = .ok .compiled →
      Engine.select u' fallback' = .ok .interpreted →
      (∀ s : Extraction.Settings, (Extraction.make { s with engine := u } fallback).map
          (fun x => { x with executor := .interpreted }) =
        Extraction.make { s with engine := u' } fallback') ∧
      (∀ s : StorageSettings, (Combination.make { s with engine := u } fallback).map
          (fun c => { c with executor := .interpreted }) =
        Combination.make { s with engine := u' } fallback') ∧
      (∀ s : StorageSettings, (Replacement.make { s with engine := u } fallback).map
          (fun r => { r with executor := .interpreted }) =
        Replacement.make { s with engine := u' } fallback') ∧
      ∀ s : Transfer.Settings, (Transfer.make { s with engine := u } fallback).map
          (fun t => { t with executor := .interpreted }) =
        Transfer.make { s with engine := u' } fallback' := by
  constructor
  · intro op hmade
    refine ⟨?_, hmade.exists_function, ?_⟩
    · intro n hn
      have hfits := hmade.figures_fit n hn
      exact ⟨hfits, hfits.hex_eq⟩
    · obtain ⟨f, hf, _⟩ := hmade.exists_function "run" none
      refine ⟨f, hf, ?_⟩
      rw [Operation.source, hf, map_ok]
  · intro u u' fallback fallback' hcompiled hinterpreted
    exact ⟨Extraction.make_interpreted hcompiled hinterpreted,
      Combination.make_interpreted hcompiled hinterpreted,
      Replacement.make_interpreted hcompiled hinterpreted,
      Transfer.make_interpreted hcompiled hinterpreted⟩

/-- A transfer whose fields come in the digits of two inputs and go to slots of other widths, and
operations that are chosen by a setting and by the environment, one of which cannot be made. -/
theorem code_of_made_mixed_widths :
    (∃ t, Transfer.make ⟨.list [.text "aaaabbbb", .text "cd.....dccdddddc"],
        .text "dd10aaa0cccc0000", .base .binary, .text "corrupt", .none⟩ none = .ok t ∧
      t.figures = [⟨0x4000, 16⟩, ⟨0x0100, 16⟩, ⟨0x003e, 16⟩, ⟨0xf0, 8⟩, ⟨0x8000, 16⟩, ⟨0x00c0, 16⟩,
        ⟨0x0001, 16⟩, ⟨3, 2⟩, ⟨7, 3⟩, ⟨0xc000, 16⟩, ⟨0x0e00, 16⟩, ⟨0x00f0, 16⟩, ⟨0x2000, 16⟩,
        ⟨0xffff, 16⟩] ∧
      (∀ n ∈ t.figures, n.number < 2 ^ n.width ∧
        Number.hex (.int n.number) (.int n.width) = .ok (Text.fixedHex n.number n.width)) ∧
      ∃ f : Program.Function, (Operation.transfer t).function "run" none = .ok f ∧
        (Operation.transfer t).source = .ok f.text) ∧
    Engine.select (.text "compiled") none = .ok .compiled ∧
    Engine.select .none (some "interpreted") = .ok .interpreted ∧
    (Extraction.make { template := .text "aab.bacc", engine := .text "compiled" } none).map
        (fun x => { x with executor := .interpreted }) =
      Extraction.make { template := .text "aab.bacc" } (some "interpreted") ∧
    (Combination.make { template := .text "aab.b0cc", engine := .text "compiled" } none).map
        (fun c => { c with executor := .interpreted }) =
      Combination.make { template := .text "aab.b0cc" } (some "interpreted") := by
  obtain ⟨hcode, hengines⟩ := code_of_made
  obtain ⟨hextraction, hcombination, _⟩ :=
    hengines (.text "compiled") .none none (some "interpreted") rfl rfl
  refine ⟨?_, rfl, rfl, hextraction { template := .text "aab.bacc" },
    hcombination { template := .text "aab.b0cc" }⟩
  obtain ⟨t, ht, hfigures⟩ : ∃ t, Transfer.make ⟨.list [.text "aaaabbbb", .text "cd.....dccdddddc"],
        .text "dd10aaa0cccc0000", .base .binary, .text "corrupt", .none⟩ none = .ok t ∧
      t.figures = [⟨0x4000, 16⟩, ⟨0x0100, 16⟩, ⟨0x003e, 16⟩, ⟨0xf0, 8⟩, ⟨0x8000, 16⟩, ⟨0x00c0, 16⟩,
        ⟨0x0001, 16⟩, ⟨3, 2⟩, ⟨7, 3⟩, ⟨0xc000, 16⟩, ⟨0x0e00, 16⟩, ⟨0x00f0, 16⟩, ⟨0x2000, 16⟩,
        ⟨0xffff, 16⟩] := ⟨_, rfl, rfl⟩
  obtain ⟨hfits, _, hsource⟩ := hcode (.transfer t) (.transfer ht)
  exact ⟨t, ht, hfigures, hfits, hsource⟩

end BitTemplate
