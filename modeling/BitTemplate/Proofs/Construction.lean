import BitTemplate.Proofs.Functions

/-!
When the four operations can be made, and what is known of them then. Each is made exactly if its
engine, its templates and its settings pass their checks and the engine can be made ready. Only
the engine depends on how the operation is carried out, and generated code never fails to be
made, so an operation that can be made for one engine can be made for the other.
-/
namespace BitTemplate

open Failure

namespace Template

theorem firstMark?_eq_none_iff (t : Template) (kind : Cell → Bool) :
    t.firstMark? kind = none ↔ ∀ cell ∈ t.cells, kind cell = false := by
  unfold firstMark? cells
  rw [List.find?_eq_none]
  simp

theorem forbid_eq_ok_iff (t : Template) (kind : Cell → Bool) (fault : Char → Fault) :
    t.forbid kind fault = .ok () ↔ ∀ cell ∈ t.cells, kind cell = false := by
  rw [← firstMark?_eq_none_iff]
  unfold forbid
  cases t.firstMark? kind with
  | none => simp
  | some mark => simp

end Template

namespace Executor

theorem prepare_compiled {code : Except Error Program.Function} {f : Program.Function}
    (h : code = .ok f) : prepare .compiled code = .ok (.compiled f) := by
  rw [h]
  rfl

theorem prepare_interpreted (code : Except Error Program.Function) :
    prepare .interpreted code = .ok .interpreted := rfl

/-- An engine that is ready runs the code of its operation or needs none. -/
theorem ready_of_prepare {engine : Engine} {code : Except Error Program.Function}
    {executor : Executor} {f : Program.Function} (hcode : code = .ok f)
    (h : prepare engine code = .ok executor) :
    executor = .compiled f ∨ executor = .interpreted := by
  cases engine with
  | compiled =>
    rw [prepare_compiled hcode] at h
    exact Or.inl (Except.ok.inj h).symm
  | interpreted => exact Or.inr (Except.ok.inj h).symm

theorem exists_prepare (engine : Engine) {code : Except Error Program.Function}
    {f : Program.Function} (hcode : code = .ok f) :
    ∃ executor, prepare engine code = .ok executor := by
  cases engine with
  | compiled => exact ⟨_, prepare_compiled hcode⟩
  | interpreted => exact ⟨_, prepare_interpreted code⟩

end Executor

namespace Shape

theorem standardWidth_le {n : Nat} (h : n ≤ 128) : standardWidth n ≤ 128 := by
  have hlog : Bits.ceilLog2 n ≤ 7 := by
    rw [Bits.ceilLog2, Bits.bitLength_le_iff]
    omega
  have hpow : 2 ^ Bits.ceilLog2 n ≤ 2 ^ 7 := Nat.pow_le_pow_right (by omega) hlog
  rw [standardWidth, Nat.one_shiftLeft]
  exact max_le (by omega) hpow

theorem exists_ofWidth {n : Int} (hpos : 1 ≤ n) (hle : n ≤ 128) :
    ∃ shape, ofWidth n = .ok shape := by
  refine ⟨.unsigned n.toNat (by omega), ?_⟩
  simp [ofWidth, unsigned?, hpos, hle]

theorem floor_le {minimum : Option Shape} {w : Nat} (h : floor? minimum = some w) : w ≤ 128 := by
  unfold floor? at h
  split at h
  · rename_i v hv
    cases h
    exact hv.2
  · cases h

/-- A width with a shape still has one after a least shape has raised it. -/
theorem exists_raised (minimum : Option Shape) {n raised : Int} (hpos : 1 ≤ n) (hle : n ≤ 128)
    (h : raised = n ∨ ∃ w : Nat, floor? minimum = some w ∧ raised = max n w) :
    ∃ shape, ofWidth raised = .ok shape := by
  rcases h with rfl | ⟨w, hw, rfl⟩
  · exact exists_ofWidth hpos hle
  · have := floor_le hw
    exact exists_ofWidth (le_max_of_le_left hpos) (max_le hle (by omega))

/-- Every field of a template has a shape: neither rounding up nor the least shape leads beyond the
widest one. -/
theorem exists_forField {width : Nat} (hpos : 1 ≤ width) (hle : width ≤ 128)
    (precision : Precision) (minimum : Option Shape) :
    ∃ shape, forField width precision minimum = .ok shape := by
  unfold forField
  split
  · exact ⟨_, rfl⟩
  · unfold forBits
    cases precision with
    | exact =>
      apply exists_raised minimum (n := width) (by omega) (by omega)
      split
      · rename_i w hw
        exact Or.inr ⟨w, hw, rfl⟩
      · exact Or.inl rfl
    | standard =>
      have hstandard := standardWidth_le hle
      have height : 8 ≤ standardWidth width := le_max_left 8 _
      simp only
      rw [if_neg (by omega), Int.toNat_natCast]
      apply exists_raised minimum (n := standardWidth width) (by omega) (by omega)
      split
      · rename_i w hw
        exact Or.inr ⟨w, hw, rfl⟩
      · exact Or.inl rfl

end Shape

namespace Layout

theorem width_le (l : Layout) : l.width ≤ 128 := by
  have hmem := l.template.standard
  simp only [standardWidths, List.mem_cons, List.not_mem_nil, or_false] at hmem
  unfold width Template.width
  omega

theorem width_of_mem_fields (l : Layout) {f : Field} (hf : f ∈ l.fields) :
    1 ≤ f.width ∧ f.width ≤ l.width := by
  obtain ⟨a, ha, rfl⟩ := (l.mem_fields_iff f).mp hf
  refine ⟨List.length_pos_of_ne_nil (l.template.field a ha).nonempty, ?_⟩
  rw [Template.width_field, width, ← Template.length_cells]
  exact List.count_le_length

theorem exists_shaped (l : Layout) (precision : Precision) (minimum : Option Shape) :
    ∃ shaped, l.shaped precision minimum = .ok shaped := by
  apply exists_mapM
  intro f hf
  obtain ⟨hpos, hle⟩ := l.width_of_mem_fields hf
  obtain ⟨shape, hshape⟩ := Shape.exists_forField hpos (hle.trans l.width_le) precision minimum
  exact ⟨(f, shape), by rw [hshape, map_ok]⟩

/-- The slots of all fields under a policy, without declared widths. -/
def undeclared (l : Layout) (policy : Overflow) : List Slot :=
  l.fields.map fun f => ⟨f, policy, none⟩

theorem map_field_undeclared (l : Layout) (policy : Overflow) :
    (l.undeclared policy).map Slot.field = l.fields := by
  rw [undeclared, List.map_map]
  exact List.map_id _

/-- Without declared widths every policy gives slots. -/
theorem makeSlots_none (l : Layout) {overflow : Value} {policy : Overflow}
    (h : Overflow.ofValue overflow = .ok policy) :
    l.makeSlots overflow .none = .ok (l.undeclared policy) := by
  unfold makeSlots
  rw [h, ok_bind]
  change l.fields.mapM _ = _
  rw [mapM_eq_ok_iff, undeclared, List.forall₂_map_right_iff, List.forall₂_same]
  exact fun f _ => rfl

end Layout

namespace Extraction

theorem make_eq_ok_iff (s : Settings) (fallback : Option String) (x : Extraction) :
    make s fallback = .ok x ↔ ∃ engine template precision minimum,
      Engine.select s.engine fallback = .ok engine ∧
      Template.ofValue s.template s.base = .ok template ∧
      (∀ cell ∈ template.cells, cell.isLiteral = false) ∧
      Precision.ofValue s.precision = .ok precision ∧
      Shape.least s.minimum (.precision precision) = .ok minimum ∧
      x.layout = ⟨template⟩ ∧ x.layout.shaped precision minimum = .ok x.shaped ∧
      x.named = s.named.isTrue ∧
      Executor.prepare engine (x.function "run" none) = .ok x.executor := by
  unfold make
  simp only [bind_eq_ok_iff, mapError_eq_ok_iff]
  constructor
  · intro h
    obtain ⟨engine, hengine, template, htemplate, _, hliterals, precision, hprecision, minimum,
      hminimum, shaped, hshaped, executor, hexecutor, hx⟩ := h
    cases hx
    exact ⟨engine, template, precision, minimum, hengine, htemplate,
      (template.forbid_eq_ok_iff _ _).mp hliterals, hprecision, hminimum, rfl, hshaped,
      rfl, hexecutor⟩
  · intro h
    obtain ⟨engine, template, precision, minimum, hengine, htemplate, hliterals, hprecision,
      hminimum, hlayout, hshaped, hnamed, hexecutor⟩ := h
    obtain ⟨executor, layout, shaped, named⟩ := x
    simp only at hlayout hshaped hnamed hexecutor
    subst hlayout hnamed
    exact ⟨engine, hengine, template, htemplate, (), (template.forbid_eq_ok_iff _ _).mpr
      hliterals, precision, hprecision, minimum, hminimum, shaped, hshaped, executor, hexecutor,
      rfl⟩

theorem fields_of_shaped {l : Layout} {precision : Precision} {minimum : Option Shape}
    {shaped : List (Field × Shape)} (h : l.shaped precision minimum = .ok shaped) :
    shaped.map Prod.fst = l.fields := by
  have hfst := map_eq_of_mapM (g := Prod.fst) (k := id) (by
    intro f _ pair hpair
    obtain ⟨shape, _, rfl⟩ := (map_eq_ok_iff _ _ _).mp hpair
    rfl) h
  rwa [List.map_id] at hfst

end Extraction

namespace Layout

/-- The slots of a layout are its fields, all under one policy. Nothing is declared unless it was
asked for. -/
theorem makeSlots_eq_ok {l : Layout} {overflow widths : Value} {slots : List Slot}
    (h : l.makeSlots overflow widths = .ok slots) :
    ∃ policy, Overflow.ofValue overflow = .ok policy ∧ slots.map Slot.field = l.fields ∧
      (∀ slot ∈ slots, slot.overflow = policy) ∧
      (widths = .none → ∀ slot ∈ slots, slot.sourceWidth = none) := by
  unfold makeSlots at h
  simp only [bind_eq_ok_iff] at h
  obtain ⟨policy, hpolicy, entries, hentries, hslots⟩ := h
  have hmake : ∀ f declared slot, Slot.make f (.overflow policy) declared = .ok slot →
      slot.field = f ∧ slot.overflow = policy ∧
        Slot.readSourceWidth f.name declared = .ok slot.sourceWidth := by
    intro f declared slot hslot
    unfold Slot.make at hslot
    simp only [bind_eq_ok_iff] at hslot
    obtain ⟨width, hwidth, overflow, hoverflow, hslot⟩ := hslot
    cases hslot
    cases hoverflow
    exact ⟨rfl, rfl, hwidth⟩
  refine ⟨policy, hpolicy, ?_, ?_, ?_⟩
  · have hfields := map_eq_of_mapM (g := Slot.field) (k := id)
      (fun f _ slot hslot => (hmake f _ slot hslot).1) hslots
    rwa [List.map_id] at hfields
  · intro slot hmem
    obtain ⟨f, _, hslot⟩ := exists_of_mem_mapM hslots hmem
    exact (hmake f _ slot hslot).2.1
  · intro hnone slot hmem
    obtain ⟨f, _, hslot⟩ := exists_of_mem_mapM hslots hmem
    subst hnone
    cases hentries
    exact (Except.ok.inj (hmake f _ slot hslot).2.2).symm

theorem names_of_slots {l : Layout} {slots : List Slot} (h : slots.map Slot.field = l.fields) :
    slots.map Slot.name = l.names := by
  rw [names, ← h, List.map_map]
  rfl

theorem field_of_slot {l : Layout} {slots : List Slot} (h : slots.map Slot.field = l.fields)
    {slot : Slot} (hslot : slot ∈ slots) : slot.field ∈ l.fields := by
  rw [← h]
  exact List.mem_map_of_mem hslot

/-- The slots of a layout lie in its template and have different letters. -/
theorem slots_of_fields {l : Layout} {slots : List Slot} (h : slots.map Slot.field = l.fields) :
    (∀ slot ∈ slots, slot.field.templateWidth = l.width) ∧ (slots.map Slot.name).Nodup ∧
      slots.length = l.names.length := by
  refine ⟨?_, ?_, ?_⟩
  · intro slot hslot
    exact l.templateWidth_of_mem (field_of_slot h hslot)
  · rw [names_of_slots h]
    exact l.nodup_names
  · rw [← l.length_fields, ← h, List.length_map]

end Layout

namespace Depositing

variable {accept : Template → Except Diagnostic Unit}
  {code : Layout → List Slot → Except Error Program.Function}

theorem make_eq_ok_iff (s : StorageSettings) (fallback : Option String) (d : Depositing) :
    make accept code s fallback = .ok d ↔ ∃ engine template,
      Engine.select s.engine fallback = .ok engine ∧
      Template.ofValue s.template s.base = .ok template ∧ accept template = .ok () ∧
      d.layout = ⟨template⟩ ∧ d.layout.makeSlots s.overflow s.widths = .ok d.slots ∧
      Executor.prepare engine (code d.layout d.slots) = .ok d.executor := by
  unfold make
  simp only [bind_eq_ok_iff, mapError_eq_ok_iff]
  constructor
  · intro h
    obtain ⟨engine, hengine, template, htemplate, _, haccept, slots, hslots, executor, hexecutor,
      hd⟩ := h
    cases hd
    exact ⟨engine, template, hengine, htemplate, haccept, rfl, hslots, hexecutor⟩
  · intro h
    obtain ⟨engine, template, hengine, htemplate, haccept, hlayout, hslots, hexecutor⟩ := h
    obtain ⟨executor, layout, slots⟩ := d
    simp only at hlayout hslots hexecutor
    subst hlayout
    exact ⟨engine, hengine, template, htemplate, (), haccept, slots, hslots, executor, hexecutor,
      rfl⟩

theorem slots_of_make {s : StorageSettings} {fallback : Option String} {d : Depositing}
    (h : make accept code s fallback = .ok d) {policy : Overflow}
    (hpolicy : Overflow.ofValue s.overflow = .ok policy) (hwidths : s.widths = .none) :
    d.slots = d.layout.undeclared policy := by
  obtain ⟨_, _, _, _, _, _, hslots, _⟩ := (make_eq_ok_iff s fallback d).mp h
  rw [hwidths, d.layout.makeSlots_none hpolicy] at hslots
  exact (Except.ok.inj hslots).symm

end Depositing

theorem Combination.make_iff {s : StorageSettings} {fallback : Option String} {c : Combination} :
    Combination.make s fallback = .ok c ↔
      Depositing.make accept (Program.combination "run") s fallback = .ok c.toDepositing := by
  rw [Combination.make, map_eq_ok_iff]
  exact ⟨fun ⟨_, hd, hc⟩ => hc ▸ hd, fun hd => ⟨_, hd, rfl⟩⟩

theorem Combination.make_eq_ok_iff (s : StorageSettings) (fallback : Option String)
    (c : Combination) :
    Combination.make s fallback = .ok c ↔ ∃ engine template,
      Engine.select s.engine fallback = .ok engine ∧
      Template.ofValue s.template s.base = .ok template ∧
      (∀ cell ∈ template.cells, cell.isPlaceholder = false) ∧ c.layout = ⟨template⟩ ∧
      c.layout.makeSlots s.overflow s.widths = .ok c.slots ∧
      Executor.prepare engine (Program.combination "run" c.layout c.slots) = .ok c.executor := by
  rw [make_iff, Depositing.make_eq_ok_iff]
  simp only [accept, Template.forbidPlaceholders, Template.forbid_eq_ok_iff]

theorem Replacement.make_iff {s : StorageSettings} {fallback : Option String} {r : Replacement} :
    Replacement.make s fallback = .ok r ↔
      Depositing.make accept (Program.replacement "run") s fallback = .ok r.toDepositing := by
  rw [Replacement.make, map_eq_ok_iff]
  exact ⟨fun ⟨_, hd, hr⟩ => hr ▸ hd, fun hd => ⟨_, hd, rfl⟩⟩

theorem Replacement.make_eq_ok_iff (s : StorageSettings) (fallback : Option String)
    (r : Replacement) :
    Replacement.make s fallback = .ok r ↔ ∃ engine template,
      Engine.select s.engine fallback = .ok engine ∧
      Template.ofValue s.template s.base = .ok template ∧ r.layout = ⟨template⟩ ∧
      r.layout.makeSlots s.overflow s.widths = .ok r.slots ∧
      Executor.prepare engine (Program.replacement "run" r.layout r.slots) = .ok r.executor := by
  rw [make_iff, Depositing.make_eq_ok_iff]
  simp only [accept, true_and]

namespace Transfer

theorem make_eq_ok_iff (s : Settings) (fallback : Option String) (t : Transfer) :
    make s fallback = .ok t ↔ ∃ engine values template sources policy,
      Engine.select s.engine fallback = .ok engine ∧
      inputValues s.inputs = .ok values ∧ values.mapM (readInput s.base) = .ok t.inputs ∧
      t.inputs ≠ [] ∧ Template.ofValue s.output s.base = .ok template ∧
      (∀ cell ∈ template.cells, cell.isPlaceholder = false) ∧ t.output = ⟨template⟩ ∧
      gather 0 [] t.inputs = .ok sources ∧ Overflow.ofValue s.overflow = .ok policy ∧
      t.output.fields.mapM (link t.output sources policy) = .ok t.slots ∧
      Executor.prepare engine (Program.transfer "run" t.inputs.length t.output t.slots) =
        .ok t.executor := by
  unfold make
  simp only [bind_eq_ok_iff]
  constructor
  · intro h
    obtain ⟨engine, hengine, values, hvalues, inputs, hinputs, h⟩ := h
    split at h
    · cases h
    · rename_i hempty
      simp only [bind_eq_ok_iff, mapError_eq_ok_iff] at h
      obtain ⟨template, htemplate, _, hplaceholders, sources, hsources, policy, hpolicy, slots,
        hslots, executor, hexecutor, ht⟩ := h
      cases ht
      exact ⟨engine, values, template, sources, policy, hengine, hvalues, hinputs,
        by simpa using hempty, htemplate,
        (template.forbid_eq_ok_iff _ _).mp hplaceholders, rfl, hsources, hpolicy,
        hslots, hexecutor⟩
  · intro h
    obtain ⟨engine, values, template, sources, policy, hengine, hvalues, hinputs, hempty,
      htemplate, hplaceholders, houtput, hsources, hpolicy, hslots, hexecutor⟩ := h
    obtain ⟨executor, inputs, output, slots⟩ := t
    simp only at hinputs hempty houtput hsources hslots hexecutor
    subst houtput
    refine ⟨engine, hengine, values, hvalues, inputs, hinputs, ?_⟩
    rw [if_neg (by simpa using hempty)]
    simp only [bind_eq_ok_iff, mapError_eq_ok_iff]
    exact ⟨template, htemplate, (), (template.forbid_eq_ok_iff _ _).mpr hplaceholders,
      sources, hsources, policy, hpolicy, slots, hslots, executor, hexecutor, rfl⟩

theorem addFields_eq_ok {l : Layout} {index : Nat} {sources result : List Program.Source}
    {fields : List Field} (h : addFields l index sources fields = .ok result) :
    result = sources ++ fields.map fun f => ⟨index, f⟩ := by
  induction fields generalizing sources with
  | nil =>
    cases h
    simp
  | cons f rest ih =>
    unfold addFields at h
    split at h
    · cases h
    · rw [ih h, List.append_assoc]
      rfl

/-- The known sources are the fields of all inputs, each with the index of its input. -/
theorem gather_eq_ok {index : Nat} {sources result : List Program.Source} {inputs : List Layout}
    (h : gather index sources inputs = .ok result) :
    result = sources ++ (inputs.zipIdx index).flatMap fun pair =>
      pair.1.fields.map fun f => ⟨pair.2, f⟩ := by
  induction inputs generalizing index sources with
  | nil =>
    cases h
    simp
  | cons l rest ih =>
    unfold gather at h
    split at h
    · cases h
    · rename_i added hadded
      rw [ih h, addFields_eq_ok hadded, List.zipIdx_cons, List.flatMap_cons, List.append_assoc]

/-- A linked field has the first known source of its letter and declares its width. -/
theorem link_eq_ok {output : Layout} {sources : List Program.Source} {policy : Overflow} {f : Field}
    {pair : Slot × Program.Source} (h : link output sources policy f = .ok pair) :
    pair.1 = ⟨f, policy, some (.int pair.2.field.width)⟩ ∧
      source? sources f.name = some pair.2 := by
  unfold link at h
  split at h
  · rename_i source hsource
    cases h
    exact ⟨rfl, hsource⟩
  · cases h

/-- The slots of a transfer are the fields of its output, under one policy. Each has the first
known source of its letter. -/
theorem mapM_link_eq_ok {output : Layout} {sources : List Program.Source} {policy : Overflow}
    {slots : List (Slot × Program.Source)}
    (h : output.fields.mapM (link output sources policy) = .ok slots) :
    slots.map (fun pair => pair.1.field) = output.fields ∧
      ∀ pair ∈ slots, source? sources pair.1.name = some pair.2 ∧ pair.1.overflow = policy ∧
        pair.1.sourceWidth = some (.int pair.2.field.width) := by
  constructor
  · have hfields := map_eq_of_mapM (g := fun pair => pair.1.field) (k := id) (by
      intro f _ pair hpair
      rw [(link_eq_ok hpair).1]
      rfl) h
    rwa [List.map_id] at hfields
  · intro pair hmem
    obtain ⟨f, _, hpair⟩ := exists_of_mem_mapM h hmem
    obtain ⟨hslot, hsource⟩ := link_eq_ok hpair
    rw [hslot]
    exact ⟨hsource, rfl, rfl⟩

/-- A known source is a field of the letter in one of the inputs. -/
theorem field_of_source {inputs : List Layout} {sources : List Program.Source} {a : Letter}
    {source : Program.Source} (hsources : gather 0 [] inputs = .ok sources)
    (h : source? sources a = some source) :
    source.field.name = a ∧
      ∃ l, inputs[source.index]? = some l ∧ source.field ∈ l.fields := by
  have hname : source.field.name = a := by
    simpa using List.find?_some h
  have hknown : source ∈ sources := List.mem_of_find?_eq_some h
  rw [gather_eq_ok hsources, List.nil_append, List.mem_flatMap] at hknown
  obtain ⟨⟨l, i⟩, hl, hfield⟩ := hknown
  obtain ⟨g, hg, hsourceEq⟩ := List.mem_map.mp hfield
  rw [← hsourceEq] at hname ⊢
  exact ⟨hname, l, List.mk_mem_zipIdx_iff_getElem?.mp hl, hg⟩

end Transfer

end BitTemplate
