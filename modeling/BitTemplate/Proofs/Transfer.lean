import BitTemplate.Proofs.RoundTrip

/-!
A transfer is extraction followed by combination. The slots of a transfer declare the widths of
the fields that they take, and skip the policy where these fit; an extracted value lies in its
declared width, so a slot that declares nothing stores it in the same way. The letters that the
output takes from the known sources are those that it finds in the records of the extractions.
-/
namespace BitTemplate

open Failure

namespace Slot

/-- The slot that declares no width, so that its policy applies to every value. -/
def undeclared (s : Slot) : Slot := { s with sourceWidth := none }

/-- A slot needs no policy for a value that fits. -/
theorem store_of_fits (s : Slot) {v : Int} (h0 : 0 ≤ v) (hv : v < 2 ^ s.width) :
    s.store v = .ok (s.field.deposit v) := by
  rw [store_eq, s.pass_of_fits hv, map_ok, s.place_of_fits h0 hv]

/-- A declared width changes nothing for a value that the policy applies to or that fits. -/
theorem store_undeclared {s : Slot} {v : Int}
    (h : s.checked = true ∨ 0 ≤ v ∧ v < 2 ^ s.width) : s.undeclared.store v = s.store v := by
  rcases h with hchecked | ⟨h0, hv⟩
  · have hsame : s.undeclared.checked = s.checked := by
      rw [hchecked]
      rfl
    unfold store spills
    rw [hsame]
    rfl
  · rw [s.store_of_fits h0 hv, s.undeclared.store_of_fits h0 hv]
    rfl

end Slot

/-- How a slot stores a field that it takes from an input. The policy applies to wider fields only,
which is as good as if it always did. A field that is no wider can be read back as it was. -/
structure Carries (s : Slot) (f : Field) : Prop where
  checked_iff : s.checked = true ↔ s.width < f.width
  unskipped : ∀ n, s.undeclared.store (f.extract n) = s.store (f.extract n)
  extended : f.width ≤ s.width → ∀ n, ∃ bits,
    s.store (f.extract n) = .ok bits ∧ s.field.extract bits = f.extract n

theorem carries_of_declared {s : Slot} {f : Field} (h : s.sourceWidth = some (.int f.width)) :
    Carries s f := by
  have hchecked : s.checked = true ↔ s.width < f.width := by
    unfold Slot.checked
    rw [h]
    simp [Numeral.toInt]
  refine ⟨hchecked, ?_, ?_⟩
  · intro n
    obtain ⟨h0, hlt⟩ := f.extract_bounds n
    apply Slot.store_undeclared
    by_cases hwider : s.width < f.width
    · exact Or.inl (hchecked.mpr hwider)
    · have hpow : (2 : Int) ^ f.width ≤ 2 ^ s.width := pow_le_pow_right₀ (by omega) (by omega)
      exact Or.inr ⟨h0, by omega⟩
  · intro hle n
    obtain ⟨h0, hlt⟩ := f.extract_bounds n
    have hpow : (2 : Int) ^ f.width ≤ 2 ^ s.width := pow_le_pow_right₀ (by omega) hle
    refine ⟨_, s.store_of_fits h0 (by omega), ?_⟩
    rw [Field.extract_deposit]
    exact Int.emod_eq_of_lt h0 (by change _ < 2 ^ s.width; omega)

namespace Layout

open Program (transferred)

/-- Slots that carry the fields of some integers store them as if they declared nothing. -/
theorem assemble_undeclared (l : Layout) {slots : List (Slot × Program.Source)}
    (h : ∀ pair ∈ slots, Carries pair.1 pair.2.field) (integers : List Int) :
    (passAll (slots.map fun pair => pair.1.undeclared) (transferred slots integers)).map
        (l.assemble 0 (slots.map fun pair => pair.1.undeclared)) =
      (passAll (slots.map Prod.fst) (transferred slots integers)).map
        (l.assemble 0 (slots.map Prod.fst)) := by
  have hcombine : l.combine (slots.map fun pair => pair.1.undeclared)
        ((transferred slots integers).map Value.int) =
      l.combine (slots.map Prod.fst) ((transferred slots integers).map Value.int) := by
    unfold combine
    rw [transferred, List.map_map, List.zip_map', List.zip_map', List.mapM_map, List.mapM_map]
    refine congrArg (· >>= _) (mapM_congr ?_)
    intro pair hpair
    exact (h pair hpair).unskipped _
  have hstands : Stands ((transferred slots integers).map Value.int)
      (transferred slots integers) := by
    rw [Stands, List.forall₂_map_left_iff, List.forall₂_same]
    exact fun n _ => rfl
  rwa [l.combine_eq _ hstands.gives, l.combine_eq _ hstands.gives] at hcombine

end Layout

namespace Outcome

/-- The letters of an outcome with their values. -/
def entries : Outcome → List (Letter × Value)
  | .record fields => fields
  | _ => []

end Outcome

/-- An entry of a record is what a field of an integer gives. -/
def Field.Gives (f : Field) (n : Int) (entry : Letter × Value) : Prop :=
  entry.1 = f.name ∧ entry.2.toInt? = some (f.extract n)

theorem gives_zip {fields : List Field} {items : List Value} {n : Int}
    (h : Stands items (fields.map fun f => f.extract n)) :
    List.Forall₂ (fun f entry => f.Gives n entry) fields ((fields.map Field.name).zip items) := by
  induction fields generalizing items with
  | nil => exact List.Forall₂.nil
  | cons f rest ih =>
    rw [List.map_cons] at h
    cases h with
    | cons hfirst hrest => exact List.Forall₂.cons ⟨rfl, hfirst⟩ (ih hrest)

/-- The record of an extraction has an entry for every field. -/
theorem Extraction.run_gives {s : Extraction.Settings} {fallback : Option String}
    {x : Extraction} (h : Extraction.make s fallback = .ok x) (hnamed : x.named = true) {v : Value}
    {n : Int} (hv : v.toInt? = some n) :
    ∃ o, x.run v = .ok o ∧
      List.Forall₂ (fun f entry => f.Gives n entry) x.layout.fields o.entries := by
  obtain ⟨hrun, hstands⟩ := Extraction.run_of_make h n
  have hsame : x.run v = x.run (.int n) := by
    unfold Extraction.run
    rw [Extraction.values_of_make h hv, Extraction.values_of_make h rfl]
    rfl
  rw [hnamed, if_pos rfl] at hrun
  refine ⟨_, hsame.trans hrun, ?_⟩
  rw [← x.layout.map_fields (fun f => f.extract n) _ fun a ha => Field.extract_eq_read _ n]
    at hstands
  rw [← Layout.names_eq]
  exact gives_zip hstands

namespace Transfer

open Program (single transferred)

/-- The fields of several inputs, each with the index of its input. -/
def sourcesFrom (index : Nat) (inputs : List Layout) : List Program.Source :=
  (inputs.zipIdx index).flatMap fun pair => pair.1.fields.map fun f => ⟨pair.2, f⟩

/-- The records of several extractions have an entry for every field, in the order of the inputs. -/
theorem exists_outcomes {fallback : Option String} {xs : List Extraction}
    (hxs : ∀ x ∈ xs, x.named = true ∧ ∃ s, Extraction.make s fallback = .ok x) (read : Nat → Int)
    (index : Nat) {values : List Value}
    (hvalues : Stands values ((List.range' index xs.length).map read)) :
    ∃ outcomes, (xs.zip values).mapM (fun pair => pair.1.run pair.2) = .ok outcomes ∧
      List.Forall₂ (fun source entry => source.field.Gives (read source.index) entry)
        (sourcesFrom index (xs.map Extraction.layout)) (outcomes.flatMap Outcome.entries) := by
  induction xs generalizing index values with
  | nil => exact ⟨[], rfl, List.Forall₂.nil⟩
  | cons x rest ih =>
    rw [List.length_cons, List.range'_succ, List.map_cons] at hvalues
    cases hvalues with
    | @cons v _ values _ hv hrest =>
    obtain ⟨hnamed, s, hx⟩ := hxs x (List.mem_cons_self ..)
    obtain ⟨o, ho, hgives⟩ := Extraction.run_gives hx hnamed hv
    obtain ⟨outcomes, houtcomes, hothers⟩ :=
      ih (fun y hy => hxs y (List.mem_cons_of_mem _ hy)) (index + 1) hrest
    refine ⟨o :: outcomes, ?_, ?_⟩
    · rw [List.zip_cons_cons, mapM_cons, ho, ok_bind, houtcomes, map_ok]
    · rw [sourcesFrom, List.map_cons, List.zipIdx_cons, List.flatMap_cons, List.flatMap_cons]
      refine List.rel_append ?_ hothers
      rw [List.forall₂_map_left_iff]
      exact hgives

/-- The first known source of a letter gives the first entry of the letter. -/
theorem lookup_of_source {sources : List Program.Source} {pool : List (Letter × Value)}
    (read : Nat → Int)
    (h : List.Forall₂ (fun source entry => source.field.Gives (read source.index) entry) sources
      pool) {a : Letter} {source : Program.Source} (hsource : source? sources a = some source) :
    ∃ v, pool.lookup a = some v ∧
      v.toInt? = some (source.field.extract (read source.index)) := by
  induction h with
  | nil => simp [source?] at hsource
  | @cons first entry sources pool hgives hrest ih =>
    obtain ⟨letter, v⟩ := entry
    obtain ⟨hletter, hv⟩ := hgives
    simp only at hletter hv
    unfold source? at hsource
    rw [List.find?_cons] at hsource
    rw [List.lookup_cons, hletter]
    by_cases hname : first.field.name = a
    · rw [beq_iff_eq.mpr hname] at hsource
      rw [beq_iff_eq.mpr hname.symm]
      cases hsource
      exact ⟨v, rfl, hv⟩
    · rw [beq_false_of_ne hname] at hsource
      rw [beq_false_of_ne (Ne.symm hname)]
      exact ih hsource

/-- Every input of a transfer can be extracted, under all known settings. -/
theorem exists_extractions {base : Value} {fallback : Option String} {inputs : List Value}
    {layouts : List Layout} (h : inputs.mapM (readInput base) = .ok layouts)
    {sx : Extraction.Settings} {engine : Engine} {precision : Precision} {minimum : Option Shape}
    (hengine : Engine.select sx.engine fallback = .ok engine)
    (hprecision : Precision.ofValue sx.precision = .ok precision)
    (hminimum : Shape.least sx.minimum (.precision precision) = .ok minimum) :
    ∃ xs, inputs.mapM (fun v => Extraction.make
        { sx with template := v, base := base, named := .bool true } fallback) = .ok xs ∧
      xs.map Extraction.layout = layouts ∧
      ∀ x ∈ xs, x.named = true ∧ ∃ s, Extraction.make s fallback = .ok x := by
  induction inputs generalizing layouts with
  | nil =>
    cases h
    exact ⟨[], rfl, rfl, by simp⟩
  | cons v rest ih =>
    rw [mapM_cons, bind_eq_ok_iff] at h
    obtain ⟨l, hl, h⟩ := h
    obtain ⟨others, hothers, rfl⟩ := (map_eq_ok_iff _ _ _).mp h
    obtain ⟨xs, hxs, hlayouts, hmade⟩ := ih hothers
    unfold readInput at hl
    simp only [bind_eq_ok_iff, mapError_eq_ok_iff] at hl
    obtain ⟨template, htemplate, _, hliterals, hlayout⟩ := hl
    cases hlayout
    rw [Template.forbidLiterals, Template.forbid_eq_ok_iff] at hliterals
    obtain ⟨x, hx, hxlayout, hnamed⟩ := Extraction.exists_make
      (s := { sx with template := v, base := base, named := .bool true }) hengine htemplate
      hliterals hprecision hminimum
    refine ⟨x :: xs, ?_, ?_, ?_⟩
    · rw [mapM_cons, hx, ok_bind, hxs, map_ok]
    · rw [List.map_cons, hxlayout, hlayouts]
    · intro y hy
      rcases List.mem_cons.mp hy with rfl | hy
      · exact ⟨hnamed, _, hx⟩
      · exact hmade y hy

/-- What is known of the slots of a transfer: they are the fields of the output under its policy,
and each carries a field of its letter from one of the inputs. -/
theorem carries_of_make {s : Settings} {fallback : Option String} {t : Transfer}
    (h : make s fallback = .ok t) {policy : Overflow}
    (hpolicy : Overflow.ofValue s.overflow = .ok policy) :
    t.slots.map (fun pair => pair.1.undeclared) = t.output.undeclared policy ∧
      ∀ pair ∈ t.slots, source? (sourcesFrom 0 t.inputs) pair.1.name = some pair.2 ∧
        pair.2.field.name = pair.1.name ∧
        (∃ l, t.inputs[pair.2.index]? = some l ∧ pair.2.field ∈ l.fields) ∧
        Carries pair.1 pair.2.field := by
  obtain ⟨_, _, _, sources, policy', _, _, _, _, _, _, _, hsources, hpolicy', hslots, _⟩ :=
    (make_eq_ok_iff s fallback t).mp h
  rw [hpolicy] at hpolicy'
  cases hpolicy'
  have hknown : sources = sourcesFrom 0 t.inputs := by
    rw [gather_eq_ok hsources, List.nil_append]
    rfl
  obtain ⟨hfields, hlinked⟩ := mapM_link_eq_ok hslots
  constructor
  · rw [Layout.undeclared, ← hfields, List.map_map]
    apply List.map_congr_left
    intro pair hpair
    obtain ⟨_, hoverflow, _⟩ := hlinked pair hpair
    rw [Slot.undeclared, hoverflow]
    rfl
  · intro pair hpair
    obtain ⟨hsource, _, hwidth⟩ := hlinked pair hpair
    obtain ⟨hname, hinput⟩ := field_of_source hsources hsource
    rw [← hknown]
    exact ⟨hsource, hname, hinput, carries_of_declared hwidth⟩

/-- The records of extractions of the inputs have the fields that a transfer stores. -/
theorem exists_bound {s : Settings} {fallback : Option String} {t : Transfer}
    (h : make s fallback = .ok t) {xs : List Extraction}
    (hlayouts : xs.map Extraction.layout = t.inputs)
    (hxs : ∀ x ∈ xs, x.named = true ∧ ∃ s, Extraction.make s fallback = .ok x)
    {values : List Value} {integers : List Int} (hlength : values.length = t.inputs.length)
    (hvalues : Stands values integers) :
    ∃ outcomes bound, (xs.zip values).mapM (fun pair => pair.1.run pair.2) = .ok outcomes ∧
      List.Forall₂ (fun pair v => (outcomes.flatMap Outcome.entries).lookup pair.1.name = some v)
        t.slots bound ∧
      Stands bound (transferred t.slots integers) := by
  obtain ⟨_, _, _, _, policy, _, _, _, _, _, _, _, _, hpolicy, _, _⟩ :=
    (make_eq_ok_iff s fallback t).mp h
  obtain ⟨_, hcarries⟩ := carries_of_make h hpolicy
  have hcount : xs.length = integers.length := by
    rw [← hvalues.length_eq, hlength, ← hlayouts, List.length_map]
  have hread : (List.range' 0 xs.length).map (fun i => integers[i]?.getD 0) = integers := by
    refine List.ext_getElem (by simp [hcount]) ?_
    intro i _ hi
    simp [hi]
  rw [← hread] at hvalues
  obtain ⟨outcomes, houtcomes, hpool⟩ := exists_outcomes hxs _ 0 hvalues
  rw [hlayouts] at hpool
  have hfound := fun pair hpair => lookup_of_source (fun i => integers[i]?.getD 0) hpool
    (hcarries pair hpair).1
  choose! value hlookup hvalue using hfound
  refine ⟨outcomes, t.slots.map value, houtcomes, ?_, ?_⟩
  · rw [List.forall₂_map_right_iff, List.forall₂_same]
    exact hlookup
  · rw [Stands, transferred, List.forall₂_map_left_iff, List.forall₂_map_right_iff,
      List.forall₂_same]
    exact hvalue

/-- A transfer combines the fields that it stores, as slots that declare nothing would. -/
theorem run_eq_call {s : Settings} {fallback : Option String} {t : Transfer}
    (h : make s fallback = .ok t) {s' : StorageSettings} {c : Combination}
    (hc : Combination.make s' fallback = .ok c) (hlayout : c.layout = t.output)
    (hslots : c.slots = t.slots.map fun pair => pair.1.undeclared)
    (hcarries : ∀ pair ∈ t.slots, Carries pair.1 pair.2.field) {values bound : List Value}
    {integers : List Int} (hlength : values.length = t.inputs.length)
    (hvalues : Stands values integers) (hbound : Stands bound (transferred t.slots integers)) :
    t.run values = c.call bound [] := by
  have hnames : bound.length = c.layout.names.length := by
    obtain ⟨hfields, _⟩ := Combination.make_engines hc
    obtain ⟨_, _, hcount⟩ := Layout.slots_of_fields hfields
    rw [hbound.length_eq, ← hcount, hslots, transferred, List.length_map, List.length_map]
  have hsame := congrArg (Except.map single) (t.output.assemble_undeclared hcarries integers)
  rw [map_map, map_map] at hsame
  rw [run_of_make h hlength hvalues, Combination.call, c.layout.bind_positional _ _ hnames, ok_bind,
    Combination.run_of_make hc hnames hbound, hlayout, hslots]
  exact hsame.symm

end Transfer

/-- The outcome of a transfer is that of combining, under its policy and with nothing declared,
what extractions of its inputs return for the letters of the output. A slot skips the policy
exactly for a field that is no wider, which makes no difference and leaves the field as it is. -/
theorem transfer_eq_extraction_combination {s : Transfer.Settings} {fallback : Option String}
    {t : Transfer} (ht : Transfer.make s fallback = .ok t) (sx : Extraction.Settings)
    (cengine : Value) {ex ec : Engine} {precision : Precision} {minimum : Option Shape}
    (hxengine : Engine.select sx.engine fallback = .ok ex)
    (hprecision : Precision.ofValue sx.precision = .ok precision)
    (hminimum : Shape.least sx.minimum (.precision precision) = .ok minimum)
    (hcengine : Engine.select cengine fallback = .ok ec) :
    ∃ inputs xs c, Transfer.inputValues s.inputs = .ok inputs ∧
      inputs.mapM (fun v => Extraction.make
        { sx with template := v, base := s.base, named := .bool true } fallback) = .ok xs ∧
      Combination.make ⟨s.output, s.base, s.overflow, .none, cengine⟩ fallback = .ok c ∧
      (∀ values, values.length = inputs.length → Integral values → ∃ outcomes bound,
        (xs.zip values).mapM (fun pair => pair.1.run pair.2) = .ok outcomes ∧
        List.Forall₂ (fun a v => (outcomes.flatMap Outcome.entries).lookup a = some v)
          c.layout.names bound ∧
        t.run values = c.call bound []) ∧
      t.slots.map (fun pair => pair.1.field) = c.layout.fields ∧
      ∀ pair ∈ t.slots, pair.2.field.name = pair.1.name ∧
        (∃ x, xs[pair.2.index]? = some x ∧ pair.2.field ∈ x.layout.fields) ∧
        Carries pair.1 pair.2.field := by
  obtain ⟨_, inputs, template, _, policy, _, hinputs, hlayouts, _, htemplate, hplaceholders,
    houtput, _, hpolicy, _, _⟩ := (Transfer.make_eq_ok_iff s fallback t).mp ht
  obtain ⟨xs, hxs, hxlayouts, hmade⟩ :=
    Transfer.exists_extractions hlayouts hxengine hprecision hminimum
  obtain ⟨c, hc, hclayout⟩ := Combination.exists_make
    (s := ⟨s.output, s.base, s.overflow, .none, cengine⟩) hcengine htemplate hplaceholders hpolicy
    rfl
  have hlayout : c.layout = t.output := by rw [hclayout, houtput]
  obtain ⟨hundeclared, hcarries⟩ := Transfer.carries_of_make ht hpolicy
  have hslots : c.slots = t.slots.map fun pair => pair.1.undeclared := by
    rw [Depositing.slots_of_make (Combination.make_iff.mp hc) hpolicy rfl, hlayout, hundeclared]
  have hfields : t.slots.map (fun pair => pair.1.field) = c.layout.fields := by
    have hsame := c.layout.map_field_undeclared policy
    rwa [hlayout, ← hundeclared, List.map_map, ← hlayout] at hsame
  refine ⟨inputs, xs, c, hinputs, hxs, hc, ?_, hfields, ?_⟩
  · intro values hlength hintegral
    obtain ⟨integers, hstands⟩ := hintegral.exists_stands
    have hcount : values.length = t.inputs.length :=
      hlength.trans ((mapM_eq_ok_iff _ _ _).mp hlayouts).length_eq
    obtain ⟨outcomes, bound, houtcomes, hlookup, hbound⟩ :=
      Transfer.exists_bound ht hxlayouts hmade hcount hstands
    refine ⟨outcomes, bound, houtcomes, ?_, ?_⟩
    · rw [Layout.names, ← hfields, List.map_map, List.forall₂_map_left_iff]
      exact hlookup
    · exact Transfer.run_eq_call ht hc hlayout hslots
        (fun pair hpair => (hcarries pair hpair).2.2.2) hcount hstands hbound
  · intro pair hpair
    obtain ⟨_, hname, ⟨l, hl, hfield⟩, hcarry⟩ := hcarries pair hpair
    rw [← hxlayouts, List.getElem?_map, Option.map_eq_some_iff] at hl
    obtain ⟨x, hx, rfl⟩ := hl
    exact ⟨hname, ⟨x, hx, hfield⟩, hcarry⟩

/-- Four bits are narrowed to two and to three, and two bits are widened to three. -/
theorem transfer_eq_extraction_combination_narrowed :
    ∃ t c, Transfer.make ⟨.list [.text "aaaabbbb", .text "cc......"], .text "aacccbbb",
        .base .binary, .text "panic", .none⟩ none = .ok t ∧
      Combination.make ⟨.text "aacccbbb", .base .binary, .text "panic", .none,
        .text "interpreted"⟩ none = .ok c ∧
      (∃ bound, t.run [.int 55, .int (-1)] = c.call bound [] ∧
        c.call bound [] = .ok (.value (.int 223))) ∧
      ∃ bound, t.run [.int 63, .int (-1)] = c.call bound [] ∧
        c.call bound [] = .error (.excess (.text "b") 15 (.int 3)) := by
  have heval : (Transfer.make ⟨.list [.text "aaaabbbb", .text "cc......"], .text "aacccbbb",
      .base .binary, .text "panic", .none⟩ none).map (fun t => t.inputs.length) = .ok 2 := by rfl
  obtain ⟨t, ht, hlength⟩ := (map_eq_ok_iff _ _ _).mp heval
  have hstands : ∀ n, Stands [.int n, .int (-1)] [n, -1] := fun n => .cons rfl (.cons rfl .nil)
  have hfits : t.run [.int 55, .int (-1)] = .ok (.value (.int 223)) := by
    rw [Transfer.run_of_make ht (by rw [hlength]; rfl) (hstands 55)]
    exact eq_of_map_eq_ok ht (fun t => (passAll (t.slots.map Prod.fst)
      (Program.transferred t.slots [55, -1])).map fun us =>
        Program.single (t.output.assemble 0 (t.slots.map Prod.fst) us)) (by rfl)
  have hexcess : t.run [.int 63, .int (-1)] = .error (.excess (.text "b") 15 (.int 3)) := by
    rw [Transfer.run_of_make ht (by rw [hlength]; rfl) (hstands 63)]
    exact eq_of_map_eq_ok ht (fun t => (passAll (t.slots.map Prod.fst)
      (Program.transferred t.slots [63, -1])).map fun us =>
        Program.single (t.output.assemble 0 (t.slots.map Prod.fst) us)) (by rfl)
  obtain ⟨inputs, xs, c, hinputs, _, hc, hrun, _, _⟩ := transfer_eq_extraction_combination ht
    { template := .none } (.text "interpreted") rfl rfl rfl rfl
  cases hinputs
  have hintegral : ∀ n, Integral [.int n, .int (-1)] := fun n => integral_of_stands (hstands n)
  obtain ⟨_, bound, _, _, hbound⟩ := hrun [.int 55, .int (-1)] rfl (hintegral 55)
  obtain ⟨_, bound', _, _, hbound'⟩ := hrun [.int 63, .int (-1)] rfl (hintegral 63)
  exact ⟨t, c, ht, hc, ⟨bound, hbound, hbound ▸ hfits⟩, bound', hbound', hbound' ▸ hexcess⟩

end BitTemplate
