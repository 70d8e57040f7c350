import BitTemplate.Proofs.Reordering

/-!
Settling values in slots. Whatever engine carries an operation out, the values of its letters pass
the slots in order, and those that passed are assembled: the answer depends on the slots, the kept
bits and the values alone. The slots are the fields of the template, under the policy that was
chosen and with the widths that were declared. Choosing another policy, or declaring nothing, can
always be done and changes nothing else.
-/
namespace BitTemplate

open Failure

namespace Slot

/-- The same slot under another policy. -/
def under (s : Slot) (policy : Overflow) : Slot := { s with overflow := policy }

/-- A policy applies to all values, unless they are declared to fit. -/
theorem checked_eq_true_iff (s : Slot) :
    s.checked = true ↔ ∀ d, s.sourceWidth = some d → (s.width : Int) < d.toInt := by
  unfold checked
  cases s.sourceWidth with
  | none => simp
  | some d => simp

theorem readSourceWidth_eq_ok {name : Letter} {v : Value} {declared : Option Numeral}
    (h : readSourceWidth name v = .ok declared) : declared = v.numeral? := by
  unfold readSourceWidth at h
  split at h
  · cases h
    rfl
  · split at h
    · rename_i n hn
      split at h
      · cases h
        exact hn.symm
      · cases h
    · cases h

theorem make_eq_ok {f : Field} {policy : Overflow} {declared : Value} {s : Slot}
    (h : make f (.overflow policy) declared = .ok s) : s = ⟨f, policy, declared.numeral?⟩ := by
  unfold make at h
  simp only [bind_eq_ok_iff] at h
  obtain ⟨width, hwidth, overflow, hoverflow, hslot⟩ := h
  cases hslot
  cases hoverflow
  rw [readSourceWidth_eq_ok hwidth]

/-- What may be declared of a field does not depend on the policy. -/
theorem make_under {f : Field} {policy : Overflow} {declared : Value} {s : Slot}
    (h : make f (.overflow policy) declared = .ok s) (policy' : Overflow) :
    make f (.overflow policy') declared = .ok (s.under policy') := by
  unfold make at h ⊢
  simp only [bind_eq_ok_iff] at h
  obtain ⟨width, hwidth, overflow, hoverflow, hslot⟩ := h
  cases hslot
  rw [hwidth, ok_bind]
  rfl

end Slot

/-- The width that a mapping declares for a letter. -/
def Value.declared? (widths : Value) (a : Letter) : Option Numeral :=
  (widths.entries?.bind (Value.entry? a.text)).bind Value.numeral?

namespace Layout

theorem readWidths_eq_ok {l : Layout} {widths : Value} {entries : List (Value × Value)}
    (h : l.readWidths widths = .ok entries) (a : Letter) :
    ((Value.entry? a.text entries).getD .none).numeral? = widths.declared? a := by
  have hentries : entries = widths.entries?.getD [] := by
    unfold readWidths at h
    split at h
    · cases h
      rfl
    · split at h
      · cases h
      · rename_i found hfound
        obtain ⟨_, _, hresult⟩ := (bind_eq_ok_iff _ _ _).mp h
        cases hresult
        rw [hfound]
        rfl
  rw [hentries, Value.declared?]
  cases widths.entries? with
  | none => rfl
  | some found =>
    rw [Option.getD_some, Option.bind_some]
    cases Value.entry? a.text found <;> rfl

/-- The slots of a layout are its fields, all under one policy and with the declared widths. -/
theorem makeSlots_eq_declared {l : Layout} {overflow widths : Value} {slots : List Slot}
    {policy : Overflow} (hpolicy : Overflow.ofValue overflow = .ok policy)
    (h : l.makeSlots overflow widths = .ok slots) :
    slots = l.fields.map fun f => ⟨f, policy, widths.declared? f.name⟩ := by
  unfold makeSlots at h
  rw [hpolicy, ok_bind, bind_eq_ok_iff] at h
  obtain ⟨entries, hentries, hslots⟩ := h
  have hmap := map_eq_of_mapM (g := id) (k := fun f => ⟨f, policy, widths.declared? f.name⟩) (by
    intro f _ slot hslot
    rw [id, Slot.make_eq_ok hslot, l.readWidths_eq_ok hentries]) hslots
  rwa [List.map_id] at hmap

/-- Another policy may be chosen with the same declared widths. -/
theorem makeSlots_under {l : Layout} {overflow overflow' widths : Value} {slots : List Slot}
    {policy' : Overflow} (h : l.makeSlots overflow widths = .ok slots)
    (hpolicy' : Overflow.ofValue overflow' = .ok policy') :
    l.makeSlots overflow' widths = .ok (slots.map fun s => s.under policy') := by
  unfold makeSlots at h ⊢
  simp only [bind_eq_ok_iff] at h
  obtain ⟨policy, _, entries, hentries, hslots⟩ := h
  rw [hpolicy', ok_bind, hentries, ok_bind, mapM_eq_ok_iff, List.forall₂_map_right_iff]
  rw [mapM_eq_ok_iff] at hslots
  exact hslots.imp fun f slot hslot => Slot.make_under hslot policy'

/-- Nothing has to be declared. -/
theorem makeSlots_undeclared {l : Layout} {overflow widths : Value} {slots : List Slot}
    (h : l.makeSlots overflow widths = .ok slots) :
    l.makeSlots overflow .none = .ok (slots.map Slot.undeclared) := by
  obtain ⟨policy, hpolicy, _⟩ := makeSlots_eq_ok h
  rw [makeSlots_eq_declared hpolicy h, l.makeSlots_none hpolicy, undeclared, List.map_map]
  rfl

/-- The answer to the values of the letters of some slots, beside the bits that are kept. -/
def settle (l : Layout) (kept : Int) (slots : List Slot) (value : Letter → Int) :
    Except Error Outcome :=
  (passAll slots (slots.map fun s => value s.name)).map fun us =>
    .value (.int (l.assemble kept slots us))

theorem map_value_of_slots {l : Layout} {slots : List Slot}
    (h : slots.map Slot.field = l.fields) (value : Letter → Int) :
    l.names.map value = slots.map fun s => value s.name := by
  rw [← names_of_slots h, List.map_map]
  rfl

end Layout

section Storing

variable {s : StorageSettings} {fallback : Option String} {values bound : List Value}
  {keywords : List (Value × Value)} {value : Letter → Int}

theorem Combination.call_eq_settle {c : Combination} (h : Combination.make s fallback = .ok c)
    (hbind : c.layout.bind values keywords none = .ok bound)
    (hvalues : Stands bound (c.layout.names.map value)) :
    c.call values keywords = c.layout.settle 0 c.slots value := by
  obtain ⟨hfields, _⟩ := Combination.make_engines h
  rw [Combination.call_of_make h hbind hvalues, Layout.map_value_of_slots hfields]
  rfl

theorem Replacement.call_eq_settle {r : Replacement} (h : Replacement.make s fallback = .ok r)
    {target : Value} {t : Int} (htarget : target.toInt? = some t)
    (hbind : r.layout.bind values keywords none = .ok bound)
    (hvalues : Stands bound (r.layout.names.map value)) :
    r.call target values keywords = r.layout.settle (r.layout.keptOf t) r.slots value := by
  obtain ⟨hfields, _⟩ := Replacement.make_engines h
  rw [Replacement.call_of_make h hbind htarget hvalues, Layout.map_value_of_slots hfields]
  rfl

/-- What stores values may be made with any other slots of its layout. -/
theorem Depositing.exists_make_slots {accept : Template → Except Diagnostic Unit}
    {code : Layout → List Slot → Except Error Program.Function} (hcode : Depositing.Generates code)
    {d : Depositing} (h : Depositing.make accept code s fallback = .ok d)
    {overflow widths : Value} {slots : List Slot}
    (hslots : d.layout.makeSlots overflow widths = .ok slots) :
    ∃ d', Depositing.make accept code { s with overflow := overflow, widths := widths } fallback =
      .ok d' ∧ d'.layout = d.layout ∧ d'.slots = slots := by
  obtain ⟨engine, template, hengine, htemplate, haccept, hlayout, _, _⟩ :=
    (Depositing.make_eq_ok_iff s fallback d).mp h
  obtain ⟨_, _, hfields, _⟩ := Layout.makeSlots_eq_ok hslots
  obtain ⟨f, hf⟩ := hcode d.layout slots hfields
  obtain ⟨executor, hexecutor⟩ := Executor.exists_prepare engine hf
  exact ⟨⟨executor, d.layout, slots⟩, (Depositing.make_eq_ok_iff _ _ _).mpr
    ⟨engine, template, hengine, htemplate, haccept, hlayout, hslots, hexecutor⟩, rfl, rfl⟩

theorem Combination.exists_make_slots {c : Combination} (h : Combination.make s fallback = .ok c)
    {overflow widths : Value} {slots : List Slot}
    (hslots : c.layout.makeSlots overflow widths = .ok slots) :
    ∃ c', Combination.make { s with overflow := overflow, widths := widths } fallback = .ok c' ∧
      c'.layout = c.layout ∧ c'.slots = slots := by
  obtain ⟨d, hd, hd'⟩ := Depositing.exists_make_slots (Depositing.generates_combination "run")
    (Combination.make_iff.mp h) hslots
  exact ⟨⟨d⟩, Combination.make_iff.mpr hd, hd'⟩

theorem Replacement.exists_make_slots {r : Replacement} (h : Replacement.make s fallback = .ok r)
    {overflow widths : Value} {slots : List Slot}
    (hslots : r.layout.makeSlots overflow widths = .ok slots) :
    ∃ r', Replacement.make { s with overflow := overflow, widths := widths } fallback = .ok r' ∧
      r'.layout = r.layout ∧ r'.slots = slots := by
  obtain ⟨d, hd, hd'⟩ := Depositing.exists_make_slots (Depositing.generates_replacement "run")
    (Replacement.make_iff.mp h) hslots
  exact ⟨⟨d⟩, Replacement.make_iff.mpr hd, hd'⟩

end Storing

namespace Transfer

/-- The input that has a letter, with the integer that is given for it. -/
def supply? (inputs : List Layout) (integers : List Int) (a : Letter) : Option (Layout × Int) :=
  (inputs.zip integers).find? fun pair => pair.1.names.contains a

/-- The number that a letter has in the integers of some inputs. -/
def received (inputs : List Layout) (integers : List Int) (a : Letter) : Int :=
  ((supply? inputs integers a).map fun pair =>
    (readPositions pair.1.width (pair.1.template.positions a) pair.2 : Int)).getD 0

/-- The number of cells that a letter has in the input that has it. -/
def suppliedWidth? (inputs : List Layout) (a : Letter) : Option Int :=
  (inputs.find? fun l => l.names.contains a).map fun l => (l.template.cells.count (.field a) : Int)

/-- An item is the first of its kind if no other is of that kind. -/
theorem find?_of_unique {α : Type} {p : α → Bool} {xs : List α} {i : Nat} {x : α}
    (hx : xs[i]? = some x) (hp : p x = true)
    (hunique : ∀ j y, xs[j]? = some y → p y = true → j = i) : xs.find? p = some x := by
  obtain ⟨hi, hget⟩ := List.getElem?_eq_some_iff.mp hx
  refine List.find?_eq_some_iff_getElem.mpr ⟨hp, i, hi, hget, ?_⟩
  intro j hj
  rw [Bool.not_eq_true', Bool.eq_false_iff]
  intro hother
  have := hunique j _ (List.getElem?_eq_getElem _) hother
  omega

section

variable {s : Settings} {fallback : Option String} {t : Transfer} (h : make s fallback = .ok t)

include h

/-- The field that a slot takes is that of its letter in the one input that has the letter. -/
theorem exists_input {pair : Slot × Program.Source} (hpair : pair ∈ t.slots) :
    ∃ l ha, t.inputs[pair.2.index]? = some l ∧
      pair.2.field = l.template.field pair.1.name ha ∧
      ∀ j m, t.inputs[j]? = some m → pair.1.name ∈ m.names → j = pair.2.index := by
  obtain ⟨_, _, _, sources, _, _, _, _, _, _, _, _, hsources, _, hslots, _⟩ :=
    (make_eq_ok_iff s fallback t).mp h
  obtain ⟨hsource, _, _⟩ := (mapM_link_eq_ok hslots).2 pair hpair
  obtain ⟨hname, l, hl, hfield⟩ := field_of_source hsources hsource
  obtain ⟨a, ha, hfieldEq⟩ := (l.mem_fields_iff _).mp hfield
  have hletter : a = pair.1.name := by
    rw [← hname, hfieldEq]
    rfl
  subst hletter
  refine ⟨l, ha, hl, hfieldEq, ?_⟩
  intro j m hm hmem
  have hal : pair.1.name ∈ l.names := by rwa [l.names_eq]
  exact index_unique (not_clashing_of_gather hsources) hm hl hmem hal

theorem suppliedWidth?_of_slot {pair : Slot × Program.Source} (hpair : pair ∈ t.slots) :
    suppliedWidth? t.inputs pair.1.name = some (pair.2.field.width : Int) := by
  obtain ⟨l, ha, hl, hfield, hunique⟩ := exists_input h hpair
  have hfound := find?_of_unique (p := fun l => l.names.contains pair.1.name) hl
    (by simpa [l.names_eq] using ha) (by simpa using hunique)
  rw [suppliedWidth?, hfound, Option.map_some, hfield, Template.width_field]

theorem received_of_slot {integers : List Int} (hlength : integers.length = t.inputs.length)
    {pair : Slot × Program.Source} (hpair : pair ∈ t.slots) :
    received t.inputs integers pair.1.name =
      pair.2.field.extract (integers[pair.2.index]?.getD 0) := by
  obtain ⟨l, ha, hl, hfield, hunique⟩ := exists_input h hpair
  have hlt : pair.2.index < integers.length := by
    rw [hlength]
    exact (List.getElem?_eq_some_iff.mp hl).1
  have hn := List.getElem?_eq_getElem hlt
  have hzip : (t.inputs.zip integers)[pair.2.index]? = some (l, integers[pair.2.index]) := by
    rw [List.getElem?_zip_eq_some]
    exact ⟨hl, hn⟩
  have hfound : supply? t.inputs integers pair.1.name = some (l, integers[pair.2.index]) := by
    refine find?_of_unique hzip (by simpa [l.names_eq] using ha) ?_
    intro j y hy hcontains
    rw [List.getElem?_zip_eq_some] at hy
    exact hunique j y.1 hy.1 (by simpa using hcontains)
  rw [received, hfound, Option.map_some, Option.getD_some, hn, Option.getD_some, hfield,
    Field.extract_eq_read]
  rfl

/-- A transfer settles what its output receives from the inputs. -/
theorem run_eq_settle {values : List Value} {integers : List Int}
    (hlength : values.length = t.inputs.length) (hvalues : Stands values integers) :
    t.run values = t.output.settle 0 (t.slots.map Prod.fst) (received t.inputs integers) := by
  have hreceived : Program.transferred t.slots integers =
      (t.slots.map Prod.fst).map fun slot => received t.inputs integers slot.name := by
    rw [Program.transferred, List.map_map]
    apply List.map_congr_left
    intro pair hpair
    exact (received_of_slot h (hvalues.length_eq.symm.trans hlength) hpair).symm
  rw [run_of_make h hlength hvalues, hreceived]
  rfl

/-- A transfer may be made under any other policy. -/
theorem exists_make_under {overflow : Value} {policy : Overflow}
    (hpolicy : Overflow.ofValue overflow = .ok policy) :
    ∃ t', make { s with overflow := overflow } fallback = .ok t' ∧ t'.inputs = t.inputs ∧
      t'.output = t.output ∧ t'.slots = t.slots.map fun pair => (pair.1.under policy, pair.2) := by
  obtain ⟨engine, values, template, sources, policy', hengine, hvalues, hinputs, hempty, htemplate,
    hplaceholders, houtput, hsources, _, hslots, _⟩ := (make_eq_ok_iff s fallback t).mp h
  rw [houtput] at hslots ⊢
  have hlinked : (⟨template⟩ : Layout).fields.mapM (link ⟨template⟩ sources policy) =
      .ok (t.slots.map fun pair => (pair.1.under policy, pair.2)) := by
    rw [mapM_eq_ok_iff] at hslots ⊢
    rw [List.forall₂_map_right_iff]
    refine hslots.imp ?_
    intro f pair hpair
    obtain ⟨hslot, hsource⟩ := link_eq_ok hpair
    rw [link, hsource, hslot]
    rfl
  exact exists_make (s := { s with overflow := overflow }) hengine hvalues hinputs hempty htemplate
    hplaceholders hsources hpolicy hlinked

end

end Transfer

end BitTemplate
