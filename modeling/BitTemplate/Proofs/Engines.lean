import BitTemplate.Proofs.Binding
import BitTemplate.Proofs.Construction

/-!
Operations and the engines that carry them out. An operation that can be made for one engine can be
made for both. On integers and truth values it returns the same result or the same refusal,
whichever engine carries it out.
-/
namespace BitTemplate

open Failure

/-- Whether every value of a list is an integer or a truth value. -/
def Integral (values : List Value) : Prop := ∀ v ∈ values, ∃ n, v.toInt? = some n

theorem Integral.exists_stands {values : List Value} (h : Integral values) :
    ∃ integers, Stands values integers := by
  induction values with
  | nil => exact ⟨[], List.Forall₂.nil⟩
  | cons v rest ih =>
    obtain ⟨n, hn⟩ := h v (List.mem_cons_self ..)
    obtain ⟨ns, hns⟩ := ih fun w hw => h w (List.mem_cons_of_mem _ hw)
    exact ⟨n :: ns, List.Forall₂.cons hn hns⟩

theorem integral_of_stands {values : List Value} {integers : List Int}
    (h : Stands values integers) : Integral values := by
  induction h with
  | nil => simp [Integral]
  | @cons v n values integers hv hrest ih =>
    intro w hw
    rcases List.mem_cons.mp hw with rfl | hw
    · exact ⟨n, hv⟩
    · exact ih w hw

/-- All values pass, or the first refusal is the excess of a field. -/
theorem passAll_cases (slots : List Slot) (integers : List Int) :
    (∃ us, passAll slots integers = .ok us) ∨
      ∃ name value width, passAll slots integers = .error (.excess name value width) := by
  cases h : passAll slots integers with
  | ok us => exact Or.inl ⟨us, rfl⟩
  | error e =>
    refine Or.inr ?_
    induction slots generalizing integers with
    | nil => cases h
    | cons slot rest ih =>
      cases integers with
      | nil => cases h
      | cons n ns =>
        rw [passAll_cons] at h
        cases hpass : slot.pass n with
        | error e' =>
          rw [hpass, error_bind] at h
          have he' := slot.pass_error n e' hpass
          rw [he'] at h
          exact ⟨_, _, _, h.symm⟩
        | ok u =>
          rw [hpass, ok_bind, map_eq_error_iff] at h
          exact ih ns h

namespace Extraction

theorem exists_function {x : Extraction} (h : x.shaped.map Prod.fst = x.layout.fields)
    (name : String) (record : Option String) :
    ∃ f, x.function name record = .ok f ∧
      ∀ (v : Value) (n : Int), v.toInt? = some n → f.run [v] = .ok (.tuple (x.interpret n)) := by
  apply Program.exists_extraction
  intro pair hpair
  apply x.layout.templateWidth_of_mem
  rw [← h]
  exact List.mem_map_of_mem hpair

/-- An extraction can be made of every template without literals. -/
theorem exists_make {s : Settings} {fallback : Option String} {engine : Engine}
    {template : Template} {precision : Precision} {minimum : Option Shape}
    (hengine : Engine.select s.engine fallback = .ok engine)
    (htemplate : Template.ofValue s.template s.base = .ok template)
    (hliterals : ∀ cell ∈ template.cells, cell.isLiteral = false)
    (hprecision : Precision.ofValue s.precision = .ok precision)
    (hminimum : Shape.least s.minimum (.precision precision) = .ok minimum) :
    ∃ x, make s fallback = .ok x ∧ x.layout = ⟨template⟩ ∧ x.named = s.named.isTrue := by
  obtain ⟨shaped, hshaped⟩ := Layout.exists_shaped ⟨template⟩ precision minimum
  have hfields := fields_of_shaped hshaped
  obtain ⟨f, hf, _⟩ := exists_function (x := ⟨.interpreted, ⟨template⟩, shaped, true⟩) hfields
    "run" none
  obtain ⟨executor, hexecutor⟩ := Executor.exists_prepare engine hf
  exact ⟨⟨executor, ⟨template⟩, shaped, s.named.isTrue⟩, (make_eq_ok_iff _ _ _).mpr
    ⟨engine, template, precision, minimum, hengine, htemplate, hliterals, hprecision, hminimum,
      rfl, hshaped, rfl, hexecutor⟩, rfl, rfl⟩

/-- An extraction that can be made for one engine can be made for both. -/
theorem make_engines {s : Settings} {fallback : Option String} {x : Extraction}
    (h : make s fallback = .ok x) :
    x.shaped.map Prod.fst = x.layout.fields ∧ ∃ f, x.function "run" none = .ok f ∧
      (x.executor = .compiled f ∨ x.executor = .interpreted) ∧
      make { s with engine := .text "compiled" } fallback =
        .ok { x with executor := .compiled f } ∧
      make { s with engine := .text "interpreted" } fallback =
        .ok { x with executor := .interpreted } := by
  obtain ⟨engine, template, precision, minimum, hengine, htemplate, hliterals, hprecision,
    hminimum, hlayout, hshaped, hnamed, hexecutor⟩ := (make_eq_ok_iff s fallback x).mp h
  have hfields := fields_of_shaped hshaped
  obtain ⟨f, hf, _⟩ := exists_function hfields "run" none
  refine ⟨hfields, f, hf, ?_, ?_, ?_⟩
  · exact Executor.ready_of_prepare hf hexecutor
  · exact (make_eq_ok_iff _ _ _).mpr ⟨.compiled, template, precision, minimum, rfl, htemplate,
      hliterals, hprecision, hminimum, hlayout, hshaped, hnamed, Executor.prepare_compiled hf⟩
  · exact (make_eq_ok_iff _ _ _).mpr ⟨.interpreted, template, precision, minimum, rfl, htemplate,
      hliterals, hprecision, hminimum, hlayout, hshaped, hnamed, Executor.prepare_interpreted _⟩

/-- On an integer, either engine gives the values of the fields. -/
theorem values_of_make {s : Settings} {fallback : Option String} {x : Extraction}
    (h : make s fallback = .ok x) {v : Value} {n : Int} (hv : v.toInt? = some n) :
    x.values v = .ok (.tuple (x.interpret n)) := by
  obtain ⟨hfields, f, hf, hexecutor, _, _⟩ := make_engines h
  obtain ⟨g, hg, hrun⟩ := exists_function hfields "run" none
  rw [hf] at hg
  cases hg
  unfold values
  rcases hexecutor with hx | hx
  · rw [hx]
    exact hrun v n hv
  · rw [hx]
    simp only [integer_eq_ok v n hv, ok_bind]
    rfl

end Extraction

namespace Depositing

variable {accept : Template → Except Diagnostic Unit}
  {code : Layout → List Slot → Except Error Program.Function}

/-- There is code for the slots of every layout. -/
def Generates (code : Layout → List Slot → Except Error Program.Function) : Prop :=
  ∀ (layout : Layout) (slots : List Slot), slots.map Slot.field = layout.fields →
    ∃ f, code layout slots = .ok f

theorem generates_combination (name : String) : Generates (Program.combination name) := by
  intro layout slots hfields
  obtain ⟨hwidth, hnodup, _⟩ := Layout.slots_of_fields hfields
  obtain ⟨f, hf, _⟩ := Program.exists_combination layout slots hwidth hnodup name
  exact ⟨f, hf⟩

theorem generates_replacement (name : String) : Generates (Program.replacement name) := by
  intro layout slots hfields
  obtain ⟨hwidth, hnodup, _⟩ := Layout.slots_of_fields hfields
  obtain ⟨f, hf, _⟩ := Program.exists_replacement layout slots hwidth hnodup name
  exact ⟨f, hf⟩

/-- What stores values can be made of every template that is accepted, under every policy. -/
theorem exists_make (hcode : Generates code) {s : StorageSettings} {fallback : Option String}
    {engine : Engine} {template : Template} {policy : Overflow}
    (hengine : Engine.select s.engine fallback = .ok engine)
    (htemplate : Template.ofValue s.template s.base = .ok template)
    (haccept : accept template = .ok ())
    (hpolicy : Overflow.ofValue s.overflow = .ok policy) (hwidths : s.widths = .none) :
    ∃ d, make accept code s fallback = .ok d ∧ d.layout = ⟨template⟩ := by
  have hslots := Layout.makeSlots_none ⟨template⟩ hpolicy
  rw [← hwidths] at hslots
  obtain ⟨f, hf⟩ := hcode ⟨template⟩ _ (Layout.map_field_undeclared _ policy)
  obtain ⟨executor, hexecutor⟩ := Executor.exists_prepare engine hf
  exact ⟨⟨executor, ⟨template⟩, _⟩, (make_eq_ok_iff _ _ _).mpr
    ⟨engine, template, hengine, htemplate, haccept, rfl, hslots, hexecutor⟩, rfl⟩

/-- What can be made for one engine can be made for both. -/
theorem make_engines (hcode : Generates code) {s : StorageSettings} {fallback : Option String}
    {d : Depositing} (h : make accept code s fallback = .ok d) :
    d.slots.map Slot.field = d.layout.fields ∧ ∃ f, code d.layout d.slots = .ok f ∧
      (d.executor = .compiled f ∨ d.executor = .interpreted) ∧
      make accept code { s with engine := .text "compiled" } fallback =
        .ok { d with executor := .compiled f } ∧
      make accept code { s with engine := .text "interpreted" } fallback =
        .ok { d with executor := .interpreted } := by
  obtain ⟨engine, template, hengine, htemplate, haccept, hlayout, hslots, hexecutor⟩ :=
    (make_eq_ok_iff s fallback d).mp h
  obtain ⟨_, _, hfields, _, _⟩ := Layout.makeSlots_eq_ok hslots
  obtain ⟨f, hf⟩ := hcode d.layout d.slots hfields
  refine ⟨hfields, f, hf, ?_, ?_, ?_⟩
  · exact Executor.ready_of_prepare hf hexecutor
  · exact (make_eq_ok_iff _ _ _).mpr ⟨.compiled, template, rfl, htemplate, haccept, hlayout, hslots,
      Executor.prepare_compiled hf⟩
  · exact (make_eq_ok_iff _ _ _).mpr ⟨.interpreted, template, rfl, htemplate, haccept, hlayout,
      hslots, Executor.prepare_interpreted _⟩

end Depositing

namespace Combination

theorem exists_make {s : StorageSettings} {fallback : Option String} {engine : Engine}
    {template : Template} {policy : Overflow}
    (hengine : Engine.select s.engine fallback = .ok engine)
    (htemplate : Template.ofValue s.template s.base = .ok template)
    (hplaceholders : ∀ cell ∈ template.cells, cell.isPlaceholder = false)
    (hpolicy : Overflow.ofValue s.overflow = .ok policy) (hwidths : s.widths = .none) :
    ∃ c, make s fallback = .ok c ∧ c.layout = ⟨template⟩ := by
  have haccept : accept template = .ok () := by
    rwa [accept, Template.forbidPlaceholders, Template.forbid_eq_ok_iff]
  obtain ⟨d, hd, hlayout⟩ := Depositing.exists_make (Depositing.generates_combination "run") hengine
    htemplate haccept hpolicy hwidths
  exact ⟨⟨d⟩, make_iff.mpr hd, hlayout⟩

open Program (single)

theorem make_engines {s : StorageSettings} {fallback : Option String} {c : Combination}
    (h : make s fallback = .ok c) :
    c.slots.map Slot.field = c.layout.fields ∧
      ∃ f, Program.combination "run" c.layout c.slots = .ok f ∧
      (c.executor = .compiled f ∨ c.executor = .interpreted) ∧
      make { s with engine := .text "compiled" } fallback =
        .ok { c with executor := .compiled f } ∧
      make { s with engine := .text "interpreted" } fallback =
        .ok { c with executor := .interpreted } := by
  simp only [make_iff] at h ⊢
  exact Depositing.make_engines (Depositing.generates_combination "run") h

/-- On integers, either engine lets the same values pass and assembles them. -/
theorem run_of_make {s : StorageSettings} {fallback : Option String} {c : Combination}
    (h : make s fallback = .ok c) {values : List Value} {integers : List Int}
    (hlength : values.length = c.layout.names.length) (hvalues : Stands values integers) :
    c.run values =
      (passAll c.slots integers).map fun us => single (c.layout.assemble 0 c.slots us) := by
  obtain ⟨hfields, f, hf, hexecutor, _, _⟩ := make_engines h
  obtain ⟨hwidth, hnodup, hslots⟩ := Layout.slots_of_fields hfields
  obtain ⟨g, hg, hrun⟩ := Program.exists_combination c.layout c.slots hwidth hnodup "run"
  rw [hf] at hg
  cases hg
  have hcombine : c.run values = (c.layout.combine c.slots values).map single := by
    unfold run
    rcases hexecutor with hc | hc
    · rw [hc]
      exact hrun values integers (by omega) hvalues
    · rw [hc]
      exact bind_ok _ _
  rw [hcombine, c.layout.combine_eq c.slots hvalues.gives, map_map]
  rfl

theorem call_of_make {s : StorageSettings} {fallback : Option String} {c : Combination}
    (h : make s fallback = .ok c) {values bound : List Value} {keywords : List (Value × Value)}
    {integers : List Int} (hbind : c.layout.bind values keywords none = .ok bound)
    (hbound : Stands bound integers) : c.call values keywords =
      (passAll c.slots integers).map fun us => single (c.layout.assemble 0 c.slots us) := by
  rw [call, hbind, ok_bind, run_of_make h (Layout.length_of_bind hbind) hbound]

end Combination

namespace Replacement

theorem exists_make {s : StorageSettings} {fallback : Option String} {engine : Engine}
    {template : Template} {policy : Overflow}
    (hengine : Engine.select s.engine fallback = .ok engine)
    (htemplate : Template.ofValue s.template s.base = .ok template)
    (hpolicy : Overflow.ofValue s.overflow = .ok policy) (hwidths : s.widths = .none) :
    ∃ r, make s fallback = .ok r ∧ r.layout = ⟨template⟩ := by
  have haccept : accept template = .ok () := rfl
  obtain ⟨d, hd, hlayout⟩ := Depositing.exists_make (Depositing.generates_replacement "run") hengine
    htemplate haccept hpolicy hwidths
  exact ⟨⟨d⟩, make_iff.mpr hd, hlayout⟩

open Program (single)

theorem make_engines {s : StorageSettings} {fallback : Option String} {r : Replacement}
    (h : make s fallback = .ok r) :
    r.slots.map Slot.field = r.layout.fields ∧
      ∃ f, Program.replacement "run" r.layout r.slots = .ok f ∧
      (r.executor = .compiled f ∨ r.executor = .interpreted) ∧
      make { s with engine := .text "compiled" } fallback =
        .ok { r with executor := .compiled f } ∧
      make { s with engine := .text "interpreted" } fallback =
        .ok { r with executor := .interpreted } := by
  simp only [make_iff] at h ⊢
  exact Depositing.make_engines (Depositing.generates_replacement "run") h

theorem run_of_make {s : StorageSettings} {fallback : Option String} {r : Replacement}
    (h : make s fallback = .ok r) {target : Value} {t : Int} {values : List Value}
    {integers : List Int} (hlength : values.length = r.layout.names.length)
    (ht : target.toInt? = some t) (hvalues : Stands values integers) :
    r.run target values = (passAll r.slots integers).map fun us =>
      single (r.layout.assemble (r.layout.keptOf t) r.slots us) := by
  obtain ⟨hfields, f, hf, hexecutor, _, _⟩ := make_engines h
  obtain ⟨hwidth, hnodup, hslots⟩ := Layout.slots_of_fields hfields
  obtain ⟨g, hg, hrun⟩ := Program.exists_replacement r.layout r.slots hwidth hnodup "run"
  rw [hf] at hg
  cases hg
  have hreplace : r.run target values = (r.layout.replace r.slots target values).map single := by
    unfold run
    rcases hexecutor with hr | hr
    · rw [hr]
      exact hrun target t values integers (by omega) ht hvalues
    · rw [hr]
      exact bind_ok _ _
  rw [hreplace, r.layout.replace_eq r.slots (index?_of_toInt? ht) hvalues.gives, map_map]
  rfl

theorem call_of_make {s : StorageSettings} {fallback : Option String} {r : Replacement}
    (h : make s fallback = .ok r) {target : Value} {t : Int} {values bound : List Value}
    {keywords : List (Value × Value)} {integers : List Int}
    (hbind : r.layout.bind values keywords none = .ok bound) (ht : target.toInt? = some t)
    (hbound : Stands bound integers) : r.call target values keywords =
      (passAll r.slots integers).map fun us =>
        single (r.layout.assemble (r.layout.keptOf t) r.slots us) := by
  rw [call, hbind, ok_bind, run_of_make h (Layout.length_of_bind hbind) ht hbound]

end Replacement

namespace Transfer

open Program (single transferred)

/-- What is known of slots that are linked to the fields of some inputs. -/
theorem slots_of_link {inputs : List Layout} {output : Layout} {sources : List Program.Source}
    {policy : Overflow} {slots : List (Slot × Program.Source)}
    (hsources : gather 0 [] inputs = .ok sources)
    (hslots : output.fields.mapM (link output sources policy) = .ok slots) :
    (∀ pair ∈ slots, pair.1.field.templateWidth = output.width) ∧
      (slots.map fun pair => pair.1.name).Nodup ∧
      ∀ pair ∈ slots, pair.2.index < inputs.length := by
  obtain ⟨hfields, hlinked⟩ := mapM_link_eq_ok hslots
  have hslotFields : (slots.map Prod.fst).map Slot.field = output.fields := by
    rw [List.map_map, ← hfields]
    rfl
  obtain ⟨hwidth, hnodup, _⟩ := Layout.slots_of_fields hslotFields
  refine ⟨?_, ?_, ?_⟩
  · intro pair hpair
    exact hwidth pair.1 (List.mem_map_of_mem hpair)
  · rwa [List.map_map] at hnodup
  · intro pair hpair
    obtain ⟨_, l, hl, _⟩ := field_of_source hsources (hlinked pair hpair).1
    exact (List.getElem?_eq_some_iff.mp hl).1

theorem slots_of_make {s : Settings} {fallback : Option String} {t : Transfer}
    (h : make s fallback = .ok t) :
    (∀ pair ∈ t.slots, pair.1.field.templateWidth = t.output.width) ∧
      (t.slots.map fun pair => pair.1.name).Nodup ∧
      ∀ pair ∈ t.slots, pair.2.index < t.inputs.length := by
  obtain ⟨_, _, _, _, _, _, _, _, _, _, _, _, hsources, _, hslots, _⟩ :=
    (make_eq_ok_iff s fallback t).mp h
  exact slots_of_link hsources hslots

/-- A transfer can be made whenever its letters can be gathered and linked. -/
theorem exists_make {s : Settings} {fallback : Option String} {engine : Engine}
    {values : List Value} {inputs : List Layout} {template : Template}
    {sources : List Program.Source} {policy : Overflow} {slots : List (Slot × Program.Source)}
    (hengine : Engine.select s.engine fallback = .ok engine)
    (hvalues : inputValues s.inputs = .ok values)
    (hinputs : values.mapM (readInput s.base) = .ok inputs) (hempty : inputs ≠ [])
    (htemplate : Template.ofValue s.output s.base = .ok template)
    (hplaceholders : ∀ cell ∈ template.cells, cell.isPlaceholder = false)
    (hsources : gather 0 [] inputs = .ok sources)
    (hpolicy : Overflow.ofValue s.overflow = .ok policy)
    (hslots : (⟨template⟩ : Layout).fields.mapM (link ⟨template⟩ sources policy) = .ok slots) :
    ∃ t, make s fallback = .ok t ∧ t.inputs = inputs ∧ t.output = ⟨template⟩ ∧
      t.slots = slots := by
  obtain ⟨hwidth, hnodup, hindex⟩ := slots_of_link hsources hslots
  obtain ⟨f, hf, _⟩ := Program.exists_transfer "run" inputs.length ⟨template⟩ slots hwidth hnodup
    hindex
  obtain ⟨executor, hexecutor⟩ := Executor.exists_prepare engine hf
  exact ⟨⟨executor, inputs, ⟨template⟩, slots⟩, (make_eq_ok_iff _ _ _).mpr
    ⟨engine, values, template, sources, policy, hengine, hvalues, hinputs, hempty, htemplate,
      hplaceholders, rfl, hsources, hpolicy, hslots, hexecutor⟩, rfl, rfl, rfl⟩

theorem exists_function {s : Settings} {fallback : Option String} {t : Transfer}
    (h : make s fallback = .ok t) :
    ∃ f, Program.transfer "run" t.inputs.length t.output t.slots = .ok f ∧
      ∀ (values : List Value) (integers : List Int), values.length = t.inputs.length →
        Stands values integers → f.run values = (t.interpret values).map single := by
  obtain ⟨hwidth, hnodup, hindex⟩ := slots_of_make h
  obtain ⟨f, hf, hrun⟩ := Program.exists_transfer "run" t.inputs.length t.output t.slots hwidth
    hnodup hindex
  refine ⟨f, hf, ?_⟩
  intro values integers hlength hvalues
  rw [hrun values integers hlength hvalues, t.interpret_eq hvalues.gives, map_map]
  rfl

/-- A transfer that can be made for one engine can be made for both. -/
theorem make_engines {s : Settings} {fallback : Option String} {t : Transfer}
    (h : make s fallback = .ok t) :
    ∃ f, Program.transfer "run" t.inputs.length t.output t.slots = .ok f ∧
      (t.executor = .compiled f ∨ t.executor = .interpreted) ∧
      make { s with engine := .text "compiled" } fallback =
        .ok { t with executor := .compiled f } ∧
      make { s with engine := .text "interpreted" } fallback =
        .ok { t with executor := .interpreted } := by
  obtain ⟨f, hf, _⟩ := exists_function h
  obtain ⟨engine, values, template, sources, policy, hengine, hvalues, hinputs, hempty, htemplate,
    hplaceholders, houtput, hsources, hpolicy, hslots, hexecutor⟩ :=
    (make_eq_ok_iff s fallback t).mp h
  refine ⟨f, hf, ?_, ?_, ?_⟩
  · exact Executor.ready_of_prepare hf hexecutor
  · exact (make_eq_ok_iff _ _ _).mpr ⟨.compiled, values, template, sources, policy, rfl, hvalues,
      hinputs, hempty, htemplate, hplaceholders, houtput, hsources, hpolicy, hslots,
      Executor.prepare_compiled hf⟩
  · exact (make_eq_ok_iff _ _ _).mpr ⟨.interpreted, values, template, sources, policy, rfl,
      hvalues, hinputs, hempty, htemplate, hplaceholders, houtput, hsources, hpolicy, hslots,
      Executor.prepare_interpreted _⟩

/-- On integers, either engine lets the same fields pass and assembles them. -/
theorem run_of_make {s : Settings} {fallback : Option String} {t : Transfer}
    (h : make s fallback = .ok t) {values : List Value} {integers : List Int}
    (hlength : values.length = t.inputs.length) (hvalues : Stands values integers) :
    t.run values = (passAll (t.slots.map Prod.fst) (transferred t.slots integers)).map
      fun us => single (t.output.assemble 0 (t.slots.map Prod.fst) us) := by
  obtain ⟨f, hf, hexecutor, _, _⟩ := make_engines h
  obtain ⟨g, hg, hrun⟩ := exists_function h
  rw [hf] at hg
  cases hg
  have hinterpret : t.run values = (t.interpret values).map single := by
    unfold run
    rw [if_neg (by simpa using hlength)]
    rcases hexecutor with ht | ht
    · rw [ht]
      exact hrun values integers hlength hvalues
    · rw [ht]
      exact bind_ok _ _
  rw [hinterpret, t.interpret_eq hvalues.gives, map_map]
  rfl

end Transfer

end BitTemplate
