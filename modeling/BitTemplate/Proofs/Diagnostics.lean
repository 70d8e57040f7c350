import BitTemplate.Proofs.Linking
import BitTemplate.Proofs.Pointing
import BitTemplate.Proofs.Resolution

/-!
Where the diagnostics of operations point. Whatever an operation does besides checking its templates
and its letters fails without a diagnostic, so that every diagnostic comes from one of these checks,
while the operation is made or while its values are bound. It is then about a template that the
caller gave, and points at the first character that is at fault. Of two inputs with a letter in
common, the later one is reported.
-/
namespace BitTemplate

open Failure

namespace Diagnostic

/-- All diagnostics that a computation may end in have a property. -/
def Only {α : Type} (P : Diagnostic → Prop) (x : Except Error α) : Prop :=
  ∀ d, x = .error (.diagnostic d) → P d

section Only

variable {α β : Type} {P : Diagnostic → Prop}

theorem Only.of_ok {x : Except Error α} (h : ∃ a, x = .ok a) : Only P x := by
  obtain ⟨a, rfl⟩ := h
  nofun

theorem Only.bind {x : Except Error α} {f : α → Except Error β} (hx : Only P x)
    (hf : ∀ a, x = .ok a → Only P (f a)) : Only P (x >>= f) := by
  intro d h
  rcases (bind_eq_error_iff x f _).mp h with h | ⟨a, ha, h⟩
  · exact hx d h
  · exact hf a ha d h

theorem Only.map {x : Except Error α} {f : α → β} (h : Only P x) : Only P (x.map f) := by
  intro d hd
  cases x with
  | error e =>
    cases hd
    exact h d rfl
  | ok a => cases hd

theorem Only.mapError {x : Except Diagnostic α} (h : ∀ d, x = .error d → P d) :
    Only P (x.mapError .diagnostic) := by
  intro d hd
  cases x with
  | error d' =>
    cases hd
    exact h d rfl
  | ok a => cases hd

theorem Only.mapM {f : α → Except Error β} {xs : List α} (h : ∀ a ∈ xs, Only P (f a)) :
    Only P (xs.mapM f) := by
  intro d hd
  obtain ⟨before, a, after, rfl, _, ha⟩ := (mapM_eq_error_iff f xs _).mp hd
  exact h a (by simp) d ha

end Only

end Diagnostic

section Silent

variable {P : Diagnostic → Prop}

open Diagnostic

theorem Base.only_ofValue (v : Value) : Only P (Base.ofValue v) := by
  intro d h
  unfold ofValue at h
  split at h
  · cases h
  · split at h
    · cases h
    · split at h <;> cases h

theorem Engine.only_select (v : Value) (fallback : Option String) :
    Only P (Engine.select v fallback) := by
  intro d h
  unfold select at h
  split at h
  · simp only at h
    split at h <;> cases h
  · split at h <;> cases h
  · cases h

theorem Precision.only_ofValue (v : Value) : Only P (Precision.ofValue v) := by
  intro d h
  unfold ofValue at h
  split at h
  · cases h
  · split at h
    · cases h
    · split at h <;> cases h
  · cases h

theorem Overflow.only_ofValue (v : Value) : Only P (Overflow.ofValue v) := by
  intro d h
  unfold ofValue at h
  split at h
  · cases h
  · split at h <;> cases h
  · cases h

theorem Shape.only_ofWidth (n : Int) : Only P (Shape.ofWidth n) := by
  intro d h
  unfold ofWidth at h
  split at h <;> cases h

theorem Shape.only_ofValue (v : Value) : Only P (Shape.ofValue v) := by
  intro d h
  unfold ofValue at h
  split at h
  · cases h
  · cases h
  · exact only_ofWidth _ d h
  · split at h
    · cases h
    · split at h
      · unfold ofWidthNumeral at h
        split at h
        · exact only_ofWidth _ d h
        · cases h
      · cases h
  · cases h

theorem Shape.only_least (minimum precision : Value) : Only P (Shape.least minimum precision) := by
  intro d h
  unfold least at h
  split at h
  · cases h
  · split at h
    · rename_i e hvalue
      cases h
      exact Shape.only_ofValue _ d hvalue
    · split at h
      · rename_i e hprecision
        cases h
        exact Precision.only_ofValue _ d hprecision
      · cases h
      · split at h <;> cases h

theorem Layout.only_checkKeys (l : Layout) (keys : List Value) : Only P (l.checkKeys keys) := by
  intro d h
  induction keys with
  | nil => cases h
  | cons key rest ih =>
    unfold checkKeys at h
    split at h
    · exact ih h
    · cases h

theorem Slot.only_make (f : Field) (overflow width : Value) :
    Only P (Slot.make f overflow width) := by
  unfold make
  refine .bind ?_ fun _ _ => .bind (Overflow.only_ofValue _) fun _ _ => nofun
  intro d h
  unfold readSourceWidth at h
  split at h
  · cases h
  · split at h
    · split at h <;> cases h
    · cases h

theorem Layout.only_addKeywords (l : Layout) (bound : List (Letter × Value))
    (keywords : List (Value × Value)) : Only P (l.addKeywords bound keywords) := by
  intro d h
  induction keywords generalizing bound with
  | nil => cases h
  | cons entry rest ih =>
    unfold addKeywords at h
    split at h
    · cases h
    · split at h
      · cases h
      · exact ih _ h

theorem LooseScope.only_find (scope : LooseScope) (a : Letter) : Only P (scope.find a) := by
  have hfind (v : Value) : Only P (findIn a v) := by
    intro d h
    unfold findIn at h
    split at h
    · cases h
    · cases h
    · split at h <;> cases h
    · split at h <;> cases h
    · cases h
  unfold find
  refine .bind (hfind _) fun found _ => ?_
  cases found with
  | some v => nofun
  | none => exact hfind _

theorem Transfer.only_inputValues (v : Value) : Only P (inputValues v) := by
  intro d h
  unfold inputValues at h
  split at h
  · cases h
  · cases h
  · split at h <;> cases h

theorem Layout.only_makeSlots (l : Layout) (overflow widths : Value) :
    Only P (l.makeSlots overflow widths) := by
  unfold makeSlots
  refine .bind (Overflow.only_ofValue _) fun _ _ => .bind ?_ fun _ _ =>
    .mapM fun _ _ => Slot.only_make _ _ _
  unfold readWidths
  split
  · nofun
  · split
    · nofun
    · exact .bind (l.only_checkKeys _) fun _ _ => nofun

end Silent

open Diagnostic

/-- A template argument is reported for its text. -/
theorem Template.only_ofValue (v base : Value) :
    Only (fun d => ∃ b, Base.ofValue base = .ok b ∧ v.templateText? = some d.text ∧
      d.Pointed b ∧ d.fault.isSpelling = true) (ofValue v base) := by
  intro d h
  cases hbase : Base.ofValue base with
  | error e =>
    have hne : e ≠ .diagnostic d := by
      rintro rfl
      exact Base.only_ofValue (P := fun _ => False) base d hbase
    cases v <;> simp [ofValue, ofText, hbase, hne] at h
  | ok b =>
    cases v with
    | template t =>
      simp only [ofValue, hbase] at h
      split at h <;> cases h
    | text s =>
      simp only [ofValue, ofText, hbase] at h
      have hparse : Only (fun d => d.text = s ∧ d.Pointed b ∧ d.fault.isSpelling = true)
          ((parse s b).mapError .diagnostic) := .mapError fun _ => pointed_parse
      obtain ⟨rfl, hpointed, hspelling⟩ := hparse d h
      exact ⟨b, rfl, rfl, hpointed, hspelling⟩
    | _ => cases h

/-- A diagnostic is about the template of an operation. -/
def Reported (template base : Value) (d : Diagnostic) : Prop :=
  ∃ b, Base.ofValue base = .ok b ∧ template.templateText? = some d.text ∧ d.Pointed b

theorem Template.reported_ofValue (template base : Value) :
    Only (Reported template base) (Template.ofValue template base) := by
  intro d h
  obtain ⟨b, hbase, htext, hpointed, _⟩ := Template.only_ofValue template base d h
  exact ⟨b, hbase, htext, hpointed⟩

theorem reported_of_template {template base : Value} {t : Template} (hv : template.Faithful)
    (ht : Template.ofValue template base = .ok t) {d : Diagnostic} (htext : d.text = t.text)
    (hpointed : d.Pointed t.base) : Reported template base d := by
  obtain ⟨hbase, hwritten, _⟩ := Template.of_ofValue hv ht
  exact ⟨t.base, hbase, htext ▸ hwritten, hpointed⟩

theorem Extraction.reported_make {s : Settings} (hv : s.template.Faithful)
    (fallback : Option String) : Only (Reported s.template s.base) (make s fallback) := by
  unfold make
  refine .bind (Engine.only_select _ _) fun engine _ => .bind (Template.reported_ofValue _ _)
    fun t ht => .bind (.mapError ?_) fun _ _ => ?_
  · intro d h
    obtain ⟨_, htext, hpointed⟩ :=
      Template.pointed_forbidLiterals (Template.of_ofValue hv ht).2.2 rfl h
    exact reported_of_template hv ht htext hpointed
  · refine .bind (Precision.only_ofValue _) fun p _ => .bind (Shape.only_least _ _) fun m _ =>
      .bind (.of_ok (Layout.exists_shaped _ p m)) fun shaped hshaped => .bind (.of_ok ?_)
        fun _ _ => nofun
    obtain ⟨f, hf, _⟩ := exists_function (x := ⟨.interpreted, ⟨t⟩, shaped, true⟩)
      (fields_of_shaped hshaped) "run" none
    exact Executor.exists_prepare engine hf

/-- What stores values is reported for its template, as far as the cells that are not accepted
are. -/
theorem Depositing.reported_make {accept : Template → Except Diagnostic Unit}
    {code : Layout → List Slot → Except Error Program.Function} (hcode : Generates code)
    {s : StorageSettings}
    (haccept : ∀ t, Template.ofValue s.template s.base = .ok t → ∀ d, accept t = .error d →
      Reported s.template s.base d)
    (fallback : Option String) :
    Only (Reported s.template s.base) (make accept code s fallback) := by
  unfold make
  refine .bind (Engine.only_select _ _) fun engine _ => .bind (Template.reported_ofValue _ _)
    fun t ht => .bind (.mapError (haccept t ht)) fun _ _ => .bind (Layout.only_makeSlots _ _ _)
      fun slots hslots => .bind (.of_ok ?_) fun _ _ => nofun
  obtain ⟨_, _, hfields, _⟩ := Layout.makeSlots_eq_ok hslots
  obtain ⟨f, hf⟩ := hcode ⟨t⟩ slots hfields
  exact Executor.exists_prepare engine hf

theorem Combination.reported_make {s : StorageSettings} (hv : s.template.Faithful)
    (fallback : Option String) : Only (Reported s.template s.base) (make s fallback) := by
  refine .map (Depositing.reported_make (Depositing.generates_combination "run") ?_ fallback)
  intro t ht d h
  obtain ⟨_, htext, hpointed⟩ :=
    Template.pointed_forbidPlaceholders (Template.of_ofValue hv ht).2.2 rfl h
  exact reported_of_template hv ht htext hpointed

theorem Replacement.reported_make (s : StorageSettings) (fallback : Option String) :
    Only (Reported s.template s.base) (make s fallback) := by
  refine .map (Depositing.reported_make (Depositing.generates_replacement "run") ?_ fallback)
  intro t _ d h
  cases h

namespace Layout

variable {l : Layout}

/-- A diagnostic of a binding is about the template that is bound, and a letter without a value. -/
def Unbound (l : Layout) (d : Diagnostic) : Prop :=
  (∃ a ∈ l.names, d.fault = .unboundField a) ∧ d.text = l.template.text ∧
    d.Pointed l.template.base

theorem unbound_resolve (hl : (Value.template l.template).Faithful) (bound : List (Letter × Value))
    (scope : Option Scope) {a : Letter} (ha : a ∈ l.names) :
    Only l.Unbound (l.resolve bound scope a) := by
  intro d h
  unfold resolve at h
  split at h
  · cases h
  · split at h
    · cases h
    · obtain ⟨o, ho⟩ := l.exists_origin ha
      rw [ho, Option.getD_some, ← ho] at h
      cases h
      exact ⟨⟨a, ha, rfl⟩, rfl, pointed_letter hl ha rfl⟩

theorem unbound_bind (hl : (Value.template l.template).Faithful) (values : List Value)
    (keywords : List (Value × Value)) (scope : Option Scope) :
    Only l.Unbound (l.bind values keywords scope) := by
  unfold bind
  simp only
  split
  · nofun
  · exact .bind (l.only_addKeywords _ _) fun bound _ => .mapM fun a ha =>
      unbound_resolve hl bound scope ha

theorem unbound_looseBind (hl : (Value.template l.template).Faithful) (values keywords : Value)
    (scope : Option LooseScope) : Only l.Unbound (l.looseBind values keywords scope) := by
  have hcount : Only l.Unbound (looseCount values) := by
    intro d h
    unfold looseCount at h
    split at h <;> cases h
  have hresolve (bound : List (Letter × Value)) {a : Letter} (ha : a ∈ l.names) :
      Only l.Unbound (l.looseResolve bound scope a) := by
    unfold looseResolve
    split
    · rename_i caller _
      refine .bind (caller.only_find a) fun found _ => ?_
      cases found with
      | some v => nofun
      | none => exact unbound_resolve hl bound none ha
    · exact unbound_resolve hl bound none ha
  unfold looseBind
  refine .bind hcount fun count _ => ?_
  split
  · nofun
  · split
    · nofun
    · nofun
    · exact .bind (l.only_addKeywords _ _) fun bound _ => .mapM fun a ha => hresolve bound ha

end Layout

namespace Transfer

/-- The template that a fault of a transfer is reported for. -/
def Attributed (values : List Value) (output : Value) (text : String) : Fault → Prop
  | .duplicateField a i j => i < j ∧
    (∃ u s, values[i]? = some u ∧ u.templateText? = some s ∧ a.char ∈ s.toList) ∧
    ∃ v, values[j]? = some v ∧ v.templateText? = some text
  | .unproducedField _ => output.templateText? = some text
  | .placeholder _ _ => output.templateText? = some text
  | .literal _ _ _ => ∃ v ∈ values, v.templateText? = some text
  | _ => ∃ v ∈ output :: values, v.templateText? = some text

theorem attributed_of_spelling {values : List Value} {output v : Value} {text : String}
    (hv : v ∈ output :: values) (htext : v.templateText? = some text) {fault : Fault}
    (h : fault.isSpelling = true) : Attributed values output text fault := by
  cases fault with
  | invalidCharacter c base => exact ⟨v, hv, htext⟩
  | wrongWidth bits => exact ⟨v, hv, htext⟩
  | _ => cases h

theorem input_of_mem_lettersFrom {inputs : List Layout} {a : Letter} {i : Nat}
    (h : (a, i) ∈ lettersFrom 0 inputs) : ∃ l, inputs[i]? = some l ∧ a ∈ l.names := by
  rw [lettersFrom, List.mem_flatMap] at h
  obtain ⟨⟨l, j⟩, hl, hletter⟩ := h
  obtain ⟨b, hb, heq⟩ := List.mem_map.mp hletter
  cases heq
  exact ⟨l, List.mk_mem_zipIdx_iff_getElem?.mp hl, hb⟩

/-- The letters of the inputs are in the order of the inputs, and those of one input differ. -/
theorem pairwise_lettersFrom (index : Nat) (inputs : List Layout) :
    (lettersFrom index inputs).Pairwise fun p q => p.2 < q.2 ∨ p.2 = q.2 ∧ p.1 ≠ q.1 := by
  unfold lettersFrom
  rw [List.pairwise_flatMap]
  constructor
  · intro pair _
    rw [List.pairwise_map]
    exact pair.1.nodup_names.imp fun hne => Or.inr ⟨rfl, hne⟩
  · have hindices : ((inputs.zipIdx index).map Prod.snd).Pairwise (· < ·) := by
      rw [List.zipIdx_map_snd]
      exact List.pairwise_lt_range'
    rw [List.pairwise_map] at hindices
    refine hindices.imp ?_
    intro pair pair' hlt p hp q hq
    obtain ⟨_, _, rfl⟩ := List.mem_map.mp hp
    obtain ⟨_, _, rfl⟩ := List.mem_map.mp hq
    exact Or.inl hlt

/-- A letter of two inputs is reported in the later of them. -/
theorem clash_of_gather {inputs : List Layout} {d : Diagnostic}
    (h : gather 0 [] inputs = .error d) : ∃ a i j l m, i < j ∧ inputs[i]? = some l ∧ a ∈ l.names ∧
      inputs[j]? = some m ∧ a ∈ m.names ∧
      d = ⟨.duplicateField a i j, m.template.text, m.origin? a⟩ := by
  have hclashing : Clashing inputs := by
    by_contra hnot
    rw [gather_of_not_clashing hnot] at h
    cases h
  obtain ⟨a, i, j, hfirst⟩ := exists_firstClash hclashing
  obtain ⟨m, hm, hgather⟩ := gather_of_firstClash hfirst
  rw [hgather, Except.error.injEq] at h
  obtain ⟨before, after, hsplit, _, hearlier⟩ := hfirst
  have hpairs := pairwise_lettersFrom 0 inputs
  rw [hsplit, List.pairwise_append] at hpairs
  have hlt : i < j := by
    rcases hpairs.2.2 _ hearlier _ (List.mem_cons_self ..) with hlt | ⟨_, hne⟩
    · exact hlt
    · exact absurd rfl hne
  have hi : (a, i) ∈ lettersFrom 0 inputs := by
    rw [hsplit]
    exact List.mem_append_left _ hearlier
  have hj : (a, j) ∈ lettersFrom 0 inputs := by
    rw [hsplit]
    exact List.mem_append_right _ (List.mem_cons_self ..)
  obtain ⟨l, hl, hal⟩ := input_of_mem_lettersFrom hi
  obtain ⟨m', hm', ham⟩ := input_of_mem_lettersFrom hj
  rw [hm, Option.some.injEq] at hm'
  exact ⟨a, i, j, l, m, hlt, hl, hal, hm, hm' ▸ ham, h.symm⟩

/-- A diagnostic is about one of the templates of a transfer. -/
def Blamed (values : List Value) (output base : Value) (d : Diagnostic) : Prop :=
  ∃ b, Base.ofValue base = .ok b ∧ Attributed values output d.text d.fault ∧ d.Pointed b

section Blamed

variable {values : List Value} {output base : Value}

theorem blamed_ofValue {v : Value} (hv : v ∈ output :: values) :
    Only (Blamed values output base) (Template.ofValue v base) := by
  intro d h
  obtain ⟨b, hbase, htext, hpointed, hspelling⟩ := Template.only_ofValue v base d h
  exact ⟨b, hbase, attributed_of_spelling hv htext hspelling, hpointed⟩

theorem blamed_readInput {v : Value} (hv : v ∈ values) (hfaithful : v.Faithful) :
    Only (Blamed values output base) (readInput base v) := by
  unfold readInput
  refine .bind (blamed_ofValue (List.mem_cons_of_mem _ hv)) fun t ht => .bind (.mapError ?_)
    fun _ _ => nofun
  intro d h
  obtain ⟨hbase, htext, ht⟩ := Template.of_ofValue hfaithful ht
  obtain ⟨⟨digit, hfault⟩, hsame, hpointed⟩ := Template.pointed_forbidLiterals ht rfl h
  refine ⟨t.base, hbase, ?_, hpointed⟩
  rw [hfault, hsame]
  exact ⟨v, hv, htext⟩

theorem blamed_gather (hfaithful : ∀ v ∈ values, v.Faithful) {inputs : List Layout}
    (hinputs : values.mapM (readInput base) = .ok inputs) :
    Only (Blamed values output base) ((gather 0 [] inputs).mapError .diagnostic) := by
  rw [mapM_eq_ok_iff] at hinputs
  have hread {i : Nat} {l : Layout} (hl : inputs[i]? = some l) : ∃ v, values[i]? = some v ∧
      Base.ofValue base = .ok l.template.base ∧ v.templateText? = some l.template.text ∧
        (Value.template l.template).Faithful := by
    obtain ⟨v, hv, hvalue⟩ := (Layout.forall₂_iff_getElem?.mp hinputs.flip).2 i l hl
    have htemplate := ((readInput_eq_ok_iff base v l).mp hv).1
    exact ⟨v, hvalue, Template.of_ofValue (hfaithful v (List.mem_of_getElem? hvalue)) htemplate⟩
  refine .mapError ?_
  intro d h
  obtain ⟨a, i, j, l, m, hlt, hl, hal, hm, ham, rfl⟩ := clash_of_gather h
  obtain ⟨u, hu, _, hutext, hl⟩ := hread hl
  obtain ⟨v, hv, hbase, hvtext, hm⟩ := hread hm
  obtain ⟨hmem, _⟩ := Layout.origin?_of_parse ((mapError_eq_ok_iff _ _ _).mp hl) hal
  exact ⟨m.template.base, hbase, ⟨hlt, ⟨u, _, hu, hutext, hmem⟩, v, hv, hvtext⟩,
    Layout.pointed_letter hm ham rfl⟩

theorem blamed_link {t : Template} (hfaithful : output.Faithful)
    (ht : Template.ofValue output base = .ok t) (sources : List Program.Source)
    (policy : Overflow) : Only (Blamed values output base)
      (((⟨t⟩ : Layout).fields.mapM (link ⟨t⟩ sources policy)).mapError .diagnostic) := by
  obtain ⟨hbase, htext, ht⟩ := Template.of_ofValue hfaithful ht
  refine .mapError ?_
  intro d h
  obtain ⟨before, f, after, hfields, _, hf⟩ := (mapM_eq_error_iff _ _ _).mp h
  obtain ⟨_, rfl⟩ := (link_eq_error_iff _ sources policy f d).mp hf
  have hname : f.name ∈ (⟨t⟩ : Layout).names := by
    rw [Layout.names, hfields]
    simp
  obtain ⟨o, ho⟩ := (⟨t⟩ : Layout).exists_origin hname
  rw [ho, Option.getD_some, ← ho]
  exact ⟨t.base, hbase, htext, Layout.pointed_letter (l := ⟨t⟩) ht hname rfl⟩

/-- A transfer whose inputs are neither one template nor several is refused without a diagnostic. -/
theorem exists_inputValues {s : Settings} {fallback : Option String} {d : Diagnostic}
    (h : make s fallback = .error (.diagnostic d)) :
    ∃ values, inputValues s.inputs = .ok values := by
  have honly : Only (fun _ => ∃ values, inputValues s.inputs = .ok values) (make s fallback) := by
    unfold make
    exact .bind (Engine.only_select _ _) fun _ _ => .bind (only_inputValues _)
      fun values hvalues _ _ => ⟨values, hvalues⟩
  exact honly d h

theorem blamed_make {s : Settings} (hvalues : inputValues s.inputs = .ok values)
    (hfaithful : ∀ v ∈ s.output :: values, v.Faithful) (fallback : Option String) :
    Only (Blamed values s.output s.base) (make s fallback) := by
  rw [List.forall_mem_cons] at hfaithful
  unfold make
  simp only [hvalues, ok_bind]
  refine .bind (Engine.only_select _ _) fun engine _ => .bind (.mapM fun v hv =>
    blamed_readInput hv (hfaithful.2 v hv)) fun inputs hinputs => ?_
  split
  · nofun
  · refine .bind (blamed_ofValue (List.mem_cons_self ..)) fun t ht => .bind (.mapError ?_)
      fun _ _ => .bind (blamed_gather hfaithful.2 hinputs) fun sources hsources =>
        .bind (Overflow.only_ofValue _) fun policy _ =>
          .bind (blamed_link hfaithful.1 ht sources policy) fun slots hslots =>
            .bind (.of_ok ?_) fun _ _ => nofun
    · intro d h
      obtain ⟨hbase, htext, ht⟩ := Template.of_ofValue hfaithful.1 ht
      obtain ⟨hfault, hsame, hpointed⟩ := Template.pointed_forbidPlaceholders ht rfl h
      refine ⟨t.base, hbase, ?_, hpointed⟩
      rw [hfault, hsame]
      exact htext
    · obtain ⟨hwidth, hnodup, hindex⟩ := slots_of_link
        ((mapError_eq_ok_iff _ _ _).mp hsources) ((mapError_eq_ok_iff _ _ _).mp hslots)
      obtain ⟨f, hf, _⟩ := Program.exists_transfer "run" inputs.length ⟨t⟩ slots hwidth hnodup
        hindex
      exact Executor.exists_prepare engine hf

end Blamed

end Transfer

/-- Every diagnostic that an operation is refused with, or that its values are refused with when
they are bound, is about a template that the caller gave and is exact. For a transfer, a letter of
two inputs is reported in the later one, and a letter that no input has in the output. -/
structure PointsAtFirstFault : Prop where
  extraction : ∀ (s : Extraction.Settings) (fallback : Option String) (d : Diagnostic),
    s.template.Faithful → Extraction.make s fallback = .error (.diagnostic d) →
    ∃ base, Base.ofValue s.base = .ok base ∧ s.template.templateText? = some d.text ∧ d.Exact base
  storage : ∀ (s : StorageSettings) (fallback : Option String) (d : Diagnostic),
    s.template.Faithful →
    Combination.make s fallback = .error (.diagnostic d) ∨
      Replacement.make s fallback = .error (.diagnostic d) →
    ∃ base, Base.ofValue s.base = .ok base ∧ s.template.templateText? = some d.text ∧ d.Exact base
  transfer : ∀ (s : Transfer.Settings) (fallback : Option String) (d : Diagnostic),
    (∀ values, Transfer.inputValues s.inputs = .ok values →
      ∀ v ∈ s.output :: values, v.Faithful) →
    Transfer.make s fallback = .error (.diagnostic d) →
    ∃ base values, Base.ofValue s.base = .ok base ∧
      Transfer.inputValues s.inputs = .ok values ∧
      Transfer.Attributed values s.output d.text d.fault ∧ d.Exact base
  made : ∀ (s : StorageSettings) (fallback : Option String) (l : Layout), s.template.Faithful →
    (∃ c, Combination.make s fallback = .ok c ∧ c.layout = l) ∨
      (∃ r, Replacement.make s fallback = .ok r ∧ r.layout = l) →
    s.template.templateText? = some l.template.text ∧ (Value.template l.template).Faithful
  binding : ∀ (l : Layout) (d : Diagnostic), (Value.template l.template).Faithful →
    (∃ values keywords scope, l.bind values keywords scope = .error (.diagnostic d)) ∨
      (∃ values keywords scope, l.looseBind values keywords scope = .error (.diagnostic d)) →
    (∃ a ∈ l.names, d.fault = .unboundField a) ∧ d.text = l.template.text ∧
      d.Exact l.template.base

theorem diagnostics_point_at_first_fault : PointsAtFirstFault where
  extraction s fallback d hv h := by
    obtain ⟨base, hbase, htext, hpointed⟩ := Extraction.reported_make hv fallback d h
    exact ⟨base, hbase, htext, hpointed.exact⟩
  storage s fallback d hv h := by
    obtain ⟨base, hbase, htext, hpointed⟩ : Reported s.template s.base d := by
      rcases h with h | h
      · exact Combination.reported_make hv fallback d h
      · exact Replacement.reported_make s fallback d h
    exact ⟨base, hbase, htext, hpointed.exact⟩
  transfer s fallback d hv h := by
    obtain ⟨values, hvalues⟩ := Transfer.exists_inputValues h
    obtain ⟨base, hbase, hattributed, hpointed⟩ :=
      Transfer.blamed_make hvalues (hv values hvalues) fallback d h
    exact ⟨base, values, hbase, hvalues, hattributed, hpointed.exact⟩
  made s fallback l hv h := by
    obtain ⟨t, ht, rfl⟩ : ∃ t, Template.ofValue s.template s.base = .ok t ∧ l = ⟨t⟩ := by
      rcases h with ⟨c, hc, rfl⟩ | ⟨r, hr, rfl⟩
      · obtain ⟨_, t, _, ht, _, hlayout, _⟩ := (Combination.make_eq_ok_iff s fallback c).mp hc
        exact ⟨t, ht, hlayout⟩
      · obtain ⟨_, t, _, ht, hlayout, _⟩ := (Replacement.make_eq_ok_iff s fallback r).mp hr
        exact ⟨t, ht, hlayout⟩
    exact (Template.of_ofValue hv ht).2
  binding l d hl h := by
    obtain ⟨hletter, htext, hpointed⟩ : l.Unbound d := by
      rcases h with ⟨values, keywords, scope, h⟩ | ⟨values, keywords, scope, h⟩
      · exact Layout.unbound_bind hl values keywords scope d h
      · exact Layout.unbound_looseBind hl values keywords scope d h
    exact ⟨hletter, htext, hpointed.exact⟩

theorem diagnostics_point_at_first_fault_blanks :
    (∃ d, Extraction.make ⟨.text "ab\t.\n1abcd", .base .binary, .precision .standard, .none,
        .bool true, .none⟩ none = .error (.diagnostic d) ∧ d.index = some 5 ∧
        d.fault.Names '1' ∧ d.Exact .binary) ∧
      (∃ d, Transfer.make ⟨.list [.text "aaaabbbb", .text "cccccc bb"], .text "aaaacccc",
        .base .binary, .overflow .truncate, .none⟩ none = .error (.diagnostic d) ∧
        d.text = "cccccc bb" ∧ d.index = some 7 ∧ d.Exact .binary) ∧
      ∃ c d, Combination.make ⟨.text "aaaa\nbbbb", .base .binary, .overflow .truncate, .none,
          .none⟩ none = .ok c ∧
        c.layout.bind [.int 1] [] none = .error (.diagnostic d) ∧ d.text = "aaaa\nbbbb" ∧
        d.index = some 5 ∧ d.Exact .binary := by
  obtain ⟨hextraction, _, htransfer, hlayout, hbind⟩ := diagnostics_point_at_first_fault
  refine ⟨?_, ?_, ?_⟩
  · have hmake : Extraction.make ⟨.text "ab\t.\n1abcd", .base .binary, .precision .standard, .none,
        .bool true, .none⟩ none = .error (.diagnostic
          ⟨.literal '1' "an extraction template" "", "ab\t.\n1abcd", some 5⟩) := by rfl
    obtain ⟨base, hbase, _, hexact⟩ := hextraction _ _ _ (by exact trivial) hmake
    cases hbase
    obtain ⟨c, hc, hnames⟩ := hexact.first 5 rfl
    obtain rfl : c = '1' := Option.some.inj (hc.at_index.symm.trans rfl)
    exact ⟨_, hmake, rfl, hnames, hexact⟩
  · have hmake : Transfer.make ⟨.list [.text "aaaabbbb", .text "cccccc bb"], .text "aaaacccc",
        .base .binary, .overflow .truncate, .none⟩ none = .error (.diagnostic
          ⟨.duplicateField ⟨'b', rfl⟩ 0 1, "cccccc bb", some 7⟩) := by rfl
    obtain ⟨base, _, hbase, _, _, hexact⟩ := htransfer _ _ _
      (by intro values h; cases h; simp [Value.Faithful]) hmake
    cases hbase
    exact ⟨_, hmake, rfl, rfl, hexact⟩
  · have hmake : (Combination.make ⟨.text "aaaa\nbbbb", .base .binary, .overflow .truncate, .none,
        .none⟩ none).map (fun c => (c.layout.template.base, c.layout.bind [.int 1] [] none)) =
          .ok (.binary, .error (.diagnostic
            ⟨.unboundField ⟨'b', rfl⟩, "aaaa\nbbbb", some 5⟩)) := by rfl
    obtain ⟨c, hc, hvalues⟩ := (map_eq_ok_iff _ _ _).mp hmake
    obtain ⟨hbase, herror⟩ := Prod.mk.inj hvalues
    obtain ⟨_, hfaithful⟩ := hlayout _ none c.layout (by exact trivial) (.inl ⟨c, hc, rfl⟩)
    obtain ⟨_, _, hexact⟩ := hbind c.layout _ hfaithful (.inl ⟨_, _, _, herror⟩)
    rw [hbase] at hexact
    exact ⟨c, _, hc, herror, rfl, rfl, hexact⟩

end BitTemplate
