import BitTemplate.Proofs.Reordering

/-!
The two engines side by side. On integers they agree: they give the same result, or refuse the same
value of the same field. They part where an argument is a proxy, which gives an integer only when it
is asked. Moving bits directly asks every argument, and generated code asks none, so it refuses a
proxy wherever it reads it. What it does not read are the value of an extraction without fields, the
target of a replacement that keeps no bits, and the inputs of a transfer that no letter of the
output comes from. Where direct movement gives a result, generated code thus gives the same result
or reads a proxy.
-/
namespace BitTemplate

open Failure

namespace Program

/-- Different parameters hold all arguments, in their order. -/
theorem map_ofArguments {params : List Name} (hnodup : params.Nodup) (values : List Value)
    (hlength : params.length = values.length) :
    params.map (Env.ofArguments params values) = values := by
  apply List.ext_getElem?
  intro i
  rw [List.getElem?_map]
  cases hx : params[i]? with
  | none =>
    rw [List.getElem?_eq_none_iff, hlength] at hx
    rw [List.getElem?_eq_none hx]
    rfl
  | some x =>
    have hi : i < values.length := by
      rw [← hlength]
      exact (List.getElem?_eq_some_iff.mp hx).1
    have hvalue : Env.ofArguments params values x = values[i]?.getD .none :=
      setAll_zip Env.empty hnodup hlength hx
    rw [Option.map_some, hvalue, List.getElem?_eq_getElem hi, Option.getD_some]

section Proxies

variable {layout : Layout} {slots : List Slot} {f : Function} {values : List Value}
  {integers us : List Int} (hnodup : (slots.map Slot.name).Nodup)
  (hlength : slots.length = values.length) (hvalues : Gives values integers)
  (hpass : passAll slots integers = .ok us)

include hnodup hlength hvalues hpass

/-- The function of a combination refuses proxies. -/
theorem combination_of_proxy {name : String} (h : combination name layout slots = .ok f) {v : Value}
    (hv : v ∈ values) (hproxy : v.isProxy = true) : f.run values = .error .wrongKind := by
  obtain ⟨⟨steps, e⟩, hcombine, hf⟩ := (bind_eq_ok_iff _ _ _).mp h
  cases hf
  have hmap := map_ofArguments (nodup_letters slots hnodup) values (by simpa using hlength)
  rw [← hmap, List.map_map] at hv
  obtain ⟨slot, hslot, rfl⟩ := List.mem_map.mp hv
  rw [← hmap, List.map_map, Gives, List.forall₂_map_left_iff] at hvalues
  rw [run_value, combine_of_proxy hcombine hvalues hpass (Or.inl ⟨slot, hslot, hproxy⟩), map_error]

/-- The function of a replacement refuses proxies, but one in place of a target that is not read. -/
theorem replacement_of_proxy {name : String} (h : replacement name layout slots = .ok f)
    {target : Value}
    (hproxy : (∃ v ∈ values, v.isProxy = true) ∨
      layout.template.placeholderMask ≠ 0 ∧ target.isProxy = true) :
    f.run (target :: values) = .error .wrongKind := by
  obtain ⟨⟨steps, e⟩, hcombine, hf⟩ := (bind_eq_ok_iff _ _ _).mp h
  cases hf
  have hmap := map_ofArguments (nodup_target_letters slots hnodup) (target :: values)
    (by simpa using hlength)
  rw [List.map_cons, List.cons.injEq] at hmap
  obtain ⟨htarget, hmap⟩ := hmap
  rw [← hmap, List.map_map, Gives, List.forall₂_map_left_iff] at hvalues
  rw [run_value, combine_of_proxy hcombine hvalues hpass ?_, map_error]
  rcases hproxy with ⟨v, hv, hproxy⟩ | ⟨hmask, hproxy⟩
  · rw [← hmap, List.map_map] at hv
    obtain ⟨slot, hslot, rfl⟩ := List.mem_map.mp hv
    exact Or.inl ⟨slot, hslot, hproxy⟩
  · exact Or.inr ⟨.target, rfl, by simp, hmask, by rwa [htarget]⟩

end Proxies

/-- The function of an extraction with a field refuses a proxy. -/
theorem extraction_of_proxy {name : String} {record : Option String} {width : Nat}
    {shaped : List (Field × Shape)} {f : Function}
    (h : extraction name record width shaped = .ok f) (hne : shaped ≠ []) {v : Value}
    (hproxy : v.isProxy = true) : f.run [v] = .error .wrongKind := by
  obtain ⟨items, hitems, hf⟩ := (bind_eq_ok_iff _ _ _).mp h
  obtain ⟨pair, rest, rfl⟩ := List.exists_cons_of_ne_nil hne
  obtain ⟨e, he, hextract⟩ := exists_mem_of_mapM hitems (List.mem_cons_self ..)
  have hvalue : Env.ofArguments [.value] [v] .value = v := rfl
  have hfails : e.eval (Env.ofArguments [.value] [v]) = .error .wrongKind := by
    refine Expr.eval_of_mem_names (source_mem_names_extract hextract) ?_
    rw [hvalue]
    exact toInt?_of_isProxy hproxy
  have hall : items.mapM (Expr.eval (Env.ofArguments [.value] [v])) = .error .wrongKind :=
    mapM_eq_error_of_mem (fun _ _ _ => Expr.eval_eq_error) he hfails
  have hrun (result : Return) : (Function.mk name [.value] [] result).run [v] =
      result.eval (Env.ofArguments [.value] [v]) := rfl
  cases hf
  cases record with
  | none =>
    rw [hrun, Return.eval, hall]
    rfl
  | some record =>
    rw [hrun, Return.eval, hall]
    rfl

/-- A replacement that keeps no bits has the code of a combination, beside its target. -/
theorem combine_some_eq {layout : Layout} (h : layout.template.placeholderMask = 0)
    (slots : List Slot) (x : Name) : combine layout slots (some x) = combine layout slots none := by
  have hkept : unlessZero layout.template.placeholderMask layout.width (.mask (.name x)) = .ok [] :=
    if_pos h
  unfold combine
  simp only [hkept]

/-- The function of a replacement that keeps no bits does not read its target. -/
theorem replacement_of_mask {name : String} {layout : Layout} {slots : List Slot} {f : Function}
    (h : replacement name layout slots = .ok f)
    (hwidth : ∀ slot ∈ slots, slot.field.templateWidth = layout.width)
    (hnodup : (slots.map Slot.name).Nodup) (hmask : layout.template.placeholderMask = 0)
    (target : Value) {values : List Value} {integers : List Int}
    (hlength : slots.length = values.length) (hvalues : Stands values integers) :
    f.run (target :: values) =
      (passAll slots integers).map fun us => single (layout.assemble 0 slots us) := by
  obtain ⟨⟨steps, e⟩, hcombine, hf⟩ := (bind_eq_ok_iff _ _ _).mp h
  cases hf
  rw [combine_some_eq hmask] at hcombine
  obtain ⟨steps', e', hcombine', hrun⟩ := exists_combine layout slots none hwidth
  rw [hcombine] at hcombine'
  cases hcombine'
  have hmap := map_ofArguments (nodup_target_letters slots hnodup) (target :: values)
    (by simpa using hlength)
  rw [List.map_cons, List.cons.injEq] at hmap
  rw [← hmap.2, List.map_map, Stands, List.forall₂_map_left_iff] at hvalues
  rw [run_value, hrun _ integers 0 rfl hvalues, map_map]
  rfl

end Program

/-- How the answers of two engines to the same arguments compare. The arguments are proper if they
are as many as the operation takes. Generated code refuses a proxy that it reads. -/
structure Agreement (arguments : List Value) (proper : Prop) (Reads : Value → Prop)
    (compiled interpreted : Except Error Outcome) : Prop where
  same : Integral arguments → compiled = interpreted
  settled : Integral arguments → proper → (∃ o, compiled = .ok o) ∨
    ∃ name value width, compiled = .error (.excess name value width)
  kept : ∀ o, interpreted = .ok o → (∀ v, Reads v → v.isProxy = false) → compiled = .ok o
  refused : ∀ o v, interpreted = .ok o → Reads v → v.isProxy = true →
    compiled = .error .wrongKind

/-- Engines agree on integers if they let the same ones pass wherever all arguments that they use
are integers. -/
theorem agreement_of_passAll {arguments : List Value} (used : List Value) {proper : Prop}
    {Reads : Value → Prop} {compiled interpreted : Except Error Outcome}
    (hused : Integral arguments → Integral used)
    (hsame : Integral used → ∃ slots integers, ∃ g : List Int → Outcome,
      compiled = (passAll slots integers).map g ∧ interpreted = (passAll slots integers).map g)
    (hkept : ∀ o, interpreted = .ok o → (∀ v, Reads v → v.isProxy = false) →
      Integral used ∨ compiled = .ok o)
    (hrefused : ∀ o v, interpreted = .ok o → Reads v → v.isProxy = true →
      compiled = .error .wrongKind) :
    Agreement arguments proper Reads compiled interpreted := by
  refine ⟨?_, ?_, ?_, hrefused⟩
  · intro h
    obtain ⟨slots, integers, g, hc, hi⟩ := hsame (hused h)
    rw [hc, hi]
  · intro h _
    obtain ⟨slots, integers, g, hc, _⟩ := hsame (hused h)
    rcases passAll_cases slots integers with ⟨us, hus⟩ | ⟨name, value, width, herror⟩
    · exact Or.inl ⟨g us, by rw [hc, hus, map_ok]⟩
    · exact Or.inr ⟨name, value, width, by rw [hc, herror, map_error]⟩
  · intro o ho hreads
    rcases hkept o ho hreads with hintegral | hcompiled
    · obtain ⟨slots, integers, g, hc, hi⟩ := hsame hintegral
      rw [hc, ← hi]
      exact ho
    · exact hcompiled

/-- Engines that refuse the arguments alike agree. -/
theorem agreement_of_error {arguments : List Value} {proper : Prop} (h : ¬ proper)
    (Reads : Value → Prop) (e : Error) :
    Agreement arguments proper Reads (.error e : Except Error Outcome) (.error e) where
  same _ := rfl
  settled _ hproper := absurd hproper h
  kept _ ho := by cases ho
  refused _ _ ho := by cases ho

/-- Values that are integers or give them are integers if none of them is a proxy. -/
theorem Gives.integral {values : List Value} {integers : List Int} (h : Gives values integers)
    (hproxies : ∀ v ∈ values, v.isProxy = false) : Integral values := by
  intro v hv
  obtain ⟨n, _, hn⟩ := exists_mem_of_mapM ((mapM_integer_eq_ok_iff _ _).mpr h) hv
  refine ⟨n, ?_⟩
  rw [toInt?_of_not_isProxy (hproxies v hv)]
  exact (integer_eq_ok_iff v n).mp hn

/-- Values can only be stored if they are integers or give them, and pass. -/
theorem gives_of_combine {l : Layout} {slots : List Slot} {values : List Value} {r : Int}
    (hlength : slots.length = values.length) (h : l.combine slots values = .ok r) :
    ∃ integers us, Gives values integers ∧ passAll slots integers = .ok us := by
  obtain ⟨stored, hstored, _⟩ := (bind_eq_ok_iff _ _ _).mp h
  have hasked : ∀ v ∈ values, ∃ n, v.integer = .ok n := by
    intro v hv
    obtain ⟨i, hi, rfl⟩ := List.getElem_of_mem hv
    have hpair : (slots[i], values[i]) ∈ slots.zip values := by
      rw [List.mem_iff_getElem]
      exact ⟨i, by rw [List.length_zip]; omega, by rw [List.getElem_zip]⟩
    obtain ⟨bits, hbits⟩ := exists_of_mapM hstored hpair
    obtain ⟨n, hn, _⟩ := (bind_eq_ok_iff _ _ _).mp hbits
    exact ⟨n, hn⟩
  obtain ⟨integers, hintegers⟩ := exists_mapM hasked
  have hgives := (mapM_integer_eq_ok_iff _ _).mp hintegers
  rw [l.combine_eq slots hgives, map_eq_ok_iff] at h
  obtain ⟨us, hus, _⟩ := h
  exact ⟨integers, us, hgives, hus⟩

theorem Extraction.agreement {s s' : Extraction.Settings} {fallback : Option String}
    {x : Extraction} {f : Program.Function} (hf : x.function "run" none = .ok f)
    (hcompiled : Extraction.make s fallback = .ok { x with executor := .compiled f })
    (hinterpreted : Extraction.make s' fallback = .ok { x with executor := .interpreted })
    (value : Value) :
    Agreement [value] True (fun v => x.layout.fields ≠ [] ∧ v = value)
      ({ x with executor := .compiled f }.run value)
      ({ x with executor := .interpreted }.run value) := by
  obtain ⟨hfields, _⟩ := Extraction.make_engines hcompiled
  have hok : ∀ n, value.toInt? = some n →
      { x with executor := .compiled f }.run value = .ok (x.label (.tuple (x.interpret n))) ∧
        { x with executor := .interpreted }.run value =
          .ok (x.label (.tuple (x.interpret n))) := by
    intro n hn
    constructor
    · rw [Extraction.run, Extraction.values_of_make hcompiled hn]
      rfl
    · rw [Extraction.run, Extraction.values_of_make hinterpreted hn]
      rfl
  refine ⟨?_, ?_, ?_, ?_⟩
  · intro hintegral
    obtain ⟨n, hn⟩ := hintegral value (List.mem_singleton_self value)
    rw [(hok n hn).1, (hok n hn).2]
  · intro hintegral _
    obtain ⟨n, hn⟩ := hintegral value (List.mem_singleton_self value)
    exact Or.inl ⟨_, (hok n hn).1⟩
  · intro o ho hreads
    cases hproxy : value.isProxy with
    | false =>
      obtain ⟨_, hvalues, _⟩ := (map_eq_ok_iff _ _ _).mp ho
      obtain ⟨n, hn, _⟩ := (bind_eq_ok_iff _ _ _).mp hvalues
      rw [integer_eq_ok_iff, ← toInt?_of_not_isProxy hproxy] at hn
      rw [(hok n hn).1, ← (hok n hn).2]
      exact ho
    | true =>
      -- A proxy may only be given where there is no field to take from it.
      have hempty : x.layout.fields = [] := by
        by_contra hne
        rw [hreads value ⟨hne, rfl⟩] at hproxy
        cases hproxy
      have hshaped : x.shaped = [] := List.map_eq_nil_iff.mp (hfields.trans hempty)
      rw [Extraction.function, hshaped] at hf
      cases hf
      obtain ⟨_, hvalues, hlabel⟩ := (map_eq_ok_iff _ _ _).mp ho
      obtain ⟨n, _, htuple⟩ := (bind_eq_ok_iff _ _ _).mp hvalues
      cases htuple
      rw [Extraction.interpret, hshaped] at hlabel
      rw [← hlabel]
      rfl
  · rintro o v _ ⟨hne, rfl⟩ hproxy
    have hshaped : x.shaped ≠ [] := by
      intro hnil
      rw [hnil] at hfields
      exact hne hfields.symm
    have hrun := Program.extraction_of_proxy hf hshaped hproxy
    change (f.run [v]).map _ = _
    rw [hrun, map_error]

theorem Combination.agreement {s s' : StorageSettings} {fallback : Option String}
    {c : Combination} {f : Program.Function}
    (hf : Program.combination "run" c.layout c.slots = .ok f)
    (hcompiled : Combination.make s fallback = .ok { c with executor := .compiled f })
    (hinterpreted : Combination.make s' fallback = .ok { c with executor := .interpreted })
    (values : List Value) (keywords : List (Value × Value)) :
    Agreement (values ++ keywords.map Prod.snd)
      (∃ bound, c.layout.bind values keywords none = .ok bound)
      (fun v => ∃ bound, c.layout.bind values keywords none = .ok bound ∧ v ∈ bound)
      ({ c with executor := .compiled f }.call values keywords)
      ({ c with executor := .interpreted }.call values keywords) := by
  unfold Combination.call
  cases hbind : c.layout.bind values keywords none with
  | error e => exact agreement_of_error (by simp) _ e
  | ok bound =>
    rw [ok_bind, ok_bind]
    obtain ⟨hfields, _⟩ := Combination.make_engines hcompiled
    obtain ⟨_, hnodup, hslots⟩ := Layout.slots_of_fields hfields
    have hlength : bound.length = c.layout.names.length := Layout.length_of_bind hbind
    have hgives : ∀ o, { c with executor := .interpreted }.run bound = .ok o →
        ∃ integers us, Gives bound integers ∧ passAll c.slots integers = .ok us := by
      intro o ho
      obtain ⟨r, hr, _⟩ := (bind_eq_ok_iff _ _ _).mp ho
      exact gives_of_combine (hslots.trans hlength.symm) hr
    refine agreement_of_passAll bound ?_ ?_ ?_ ?_
    · intro h v hv
      exact h v (Layout.mem_of_bind hbind v hv)
    · intro hbound
      obtain ⟨integers, hstands⟩ := hbound.exists_stands
      exact ⟨c.slots, integers, _, Combination.run_of_make hcompiled hlength hstands,
        Combination.run_of_make hinterpreted hlength hstands⟩
    · intro o ho hreads
      obtain ⟨integers, us, hvalues, _⟩ := hgives o ho
      exact Or.inl (hvalues.integral fun v hv => hreads v ⟨bound, rfl, hv⟩)
    · rintro o v ho ⟨_, heq, hv⟩ hproxy
      cases heq
      obtain ⟨integers, us, hvalues, hpass⟩ := hgives o ho
      exact Program.combination_of_proxy hnodup (hslots.trans hlength.symm) hvalues hpass hf hv
        hproxy

theorem Replacement.agreement {s s' : StorageSettings} {fallback : Option String}
    {r : Replacement} {f : Program.Function}
    (hf : Program.replacement "run" r.layout r.slots = .ok f)
    (hcompiled : Replacement.make s fallback = .ok { r with executor := .compiled f })
    (hinterpreted : Replacement.make s' fallback = .ok { r with executor := .interpreted })
    (target : Value) (values : List Value) (keywords : List (Value × Value)) :
    Agreement (target :: values ++ keywords.map Prod.snd)
      (∃ bound, r.layout.bind values keywords none = .ok bound)
      (fun v => (r.layout.template.placeholderMask ≠ 0 ∧ v = target) ∨
        ∃ bound, r.layout.bind values keywords none = .ok bound ∧ v ∈ bound)
      ({ r with executor := .compiled f }.call target values keywords)
      ({ r with executor := .interpreted }.call target values keywords) := by
  unfold Replacement.call
  cases hbind : r.layout.bind values keywords none with
  | error e => exact agreement_of_error (by simp) _ e
  | ok bound =>
    rw [ok_bind, ok_bind]
    obtain ⟨hfields, _⟩ := Replacement.make_engines hcompiled
    obtain ⟨hwidth, hnodup, hslots⟩ := Layout.slots_of_fields hfields
    have hlength : bound.length = r.layout.names.length := Layout.length_of_bind hbind
    have hgives : ∀ o, { r with executor := .interpreted }.run target bound = .ok o →
        ∃ t integers us, target.index? = some t ∧ Gives bound integers ∧
          passAll r.slots integers = .ok us := by
      intro o ho
      obtain ⟨result, hresult, _⟩ := (bind_eq_ok_iff _ _ _).mp ho
      obtain ⟨t, ht, hrest⟩ := (bind_eq_ok_iff _ _ _).mp hresult
      obtain ⟨stored, hstored, _⟩ := (bind_eq_ok_iff _ _ _).mp hrest
      obtain ⟨integers, us, hvalues, hpass⟩ :=
        gives_of_combine (hslots.trans hlength.symm) hstored
      exact ⟨t, integers, us, (integer_eq_ok_iff target t).mp ht, hvalues, hpass⟩
    refine agreement_of_passAll (target :: bound) ?_ ?_ ?_ ?_
    · intro h v hv
      rcases List.mem_cons.mp hv with rfl | hv
      · exact h _ (List.mem_cons_self ..)
      · exact h v (List.mem_cons_of_mem _ (Layout.mem_of_bind hbind v hv))
    · intro hused
      obtain ⟨t, ht⟩ := hused target (List.mem_cons_self ..)
      have hbound : Integral bound := fun v hv => hused v (List.mem_cons_of_mem _ hv)
      obtain ⟨integers, hstands⟩ := hbound.exists_stands
      exact ⟨r.slots, integers, _, Replacement.run_of_make hcompiled hlength ht hstands,
        Replacement.run_of_make hinterpreted hlength ht hstands⟩
    · intro o ho hreads
      obtain ⟨t, integers, us, ht, hvalues, hpass⟩ := hgives o ho
      have hbound : Integral bound :=
        hvalues.integral fun v hv => hreads v (Or.inr ⟨bound, rfl, hv⟩)
      cases hproxy : target.isProxy with
      | false =>
        left
        rw [← toInt?_of_not_isProxy hproxy] at ht
        exact List.forall_mem_cons.mpr ⟨⟨t, ht⟩, hbound⟩
      | true =>
        right
        have hmask : r.layout.template.placeholderMask = 0 := by
          by_contra hne
          rw [hreads target (Or.inl ⟨hne, rfl⟩)] at hproxy
          cases hproxy
        have hkept : r.layout.keptOf t = 0 := by
          apply Bits.eq_of_bit_eq
          intro b
          simp [Layout.keptOf, hmask]
        obtain ⟨integers, hstands⟩ := hbound.exists_stands
        have hrun := Program.replacement_of_mask hf hwidth hnodup hmask target
          (hslots.trans hlength.symm) hstands
        have hreplace := r.layout.replace_eq r.slots ht hstands.gives
        rw [hkept] at hreplace
        change (r.layout.replace r.slots target bound >>= fun n => Except.ok (.value (.int n))) =
          .ok o at ho
        rw [hreplace, bind_ok, map_map] at ho
        exact hrun.trans ho
    · intro o v ho hreads hproxy
      obtain ⟨t, integers, us, _, hvalues, hpass⟩ := hgives o ho
      refine Program.replacement_of_proxy hnodup (hslots.trans hlength.symm) hvalues hpass hf ?_
      rcases hreads with ⟨hmask, rfl⟩ | ⟨_, heq, hv⟩
      · exact Or.inr ⟨hmask, hproxy⟩
      · cases heq
        exact Or.inl ⟨v, hv, hproxy⟩

theorem Transfer.agreement {s s' : Transfer.Settings} {fallback : Option String}
    {t : Transfer} {f : Program.Function}
    (hcompiled : Transfer.make s fallback = .ok { t with executor := .compiled f })
    (hinterpreted : Transfer.make s' fallback = .ok { t with executor := .interpreted })
    (values : List Value) :
    Agreement values (values.length = t.inputs.length)
      (fun v => ∃ pair ∈ t.slots, values[pair.2.index]? = some v)
      ({ t with executor := .compiled f }.run values)
      ({ t with executor := .interpreted }.run values) := by
  by_cases hlength : values.length = t.inputs.length
  · obtain ⟨_, _, hindex⟩ := Transfer.slots_of_make hcompiled
    have hvalue : ∀ pair ∈ t.slots, ∃ v, values[pair.2.index]? = some v := by
      intro pair hpair
      have hlt : pair.2.index < values.length := hlength ▸ hindex pair hpair
      exact ⟨_, List.getElem?_eq_getElem hlt⟩
    have hfetch : { t with executor := .compiled f }.run values =
        Program.fetch Value.operand t.slots values >>= t.store :=
      Transfer.run_eq_fetch hcompiled hlength
    have hasked : { t with executor := .interpreted }.run values =
        (values.mapM Value.integer).map (fun _ => ()) >>= fun _ =>
          Program.fetch Value.integer t.slots values >>= t.store :=
      Transfer.run_eq_fetch hinterpreted hlength
    refine agreement_of_passAll values id ?_ ?_ ?_
    · intro hvalues
      obtain ⟨integers, hstands⟩ := hvalues.exists_stands
      exact ⟨t.slots.map Prod.fst, Program.transferred t.slots integers, _,
        Transfer.run_of_make hcompiled hlength hstands,
        Transfer.run_of_make hinterpreted hlength hstands⟩
    · intro o ho hreads
      right
      have hsame : Program.fetch Value.operand t.slots values =
          Program.fetch Value.integer t.slots values := by
        apply mapM_congr
        intro pair hpair
        obtain ⟨v, hv⟩ := hvalue pair hpair
        rw [hv, Option.getD_some, operand_of_not_isProxy (hreads v ⟨pair, hpair, hv⟩)]
      rw [hasked, bind_eq_ok_iff] at ho
      obtain ⟨_, _, ho⟩ := ho
      rw [hfetch, hsame, ho]
    · rintro o v _ ⟨pair, hpair, hv⟩ hproxy
      have hfails : ∀ pair ∈ t.slots, ∀ e,
          (values[pair.2.index]?.getD .none).operand.map pair.2.field.extract = .error e →
            e = .wrongKind := by
        intro pair _ e he
        exact operand_eq_error ((map_eq_error_iff _ _ _).mp he)
      have hrefused : Program.fetch Value.operand t.slots values = .error .wrongKind := by
        refine mapM_eq_error_of_mem hfails hpair ?_
        rw [hv, Option.getD_some, operand_of_toInt?_eq_none (toInt?_of_isProxy hproxy), map_error]
      rw [hfetch, hrefused, error_bind]
  · have hrefused : ∀ executor, { t with executor := executor }.run values =
        .error (.valueCount t.inputs.length values.length) := by
      intro executor
      unfold Transfer.run
      exact if_pos hlength
    rw [hrefused, hrefused]
    exact agreement_of_error hlength _ _

/-- Whichever way an operation can be made, it can be made for both engines, and these agree. -/
structure EnginesAgree (fallback : Option String) : Prop where
  extraction : ∀ s x, Extraction.make s fallback = .ok x → ∃ c i,
    Extraction.make { s with engine := .text "compiled" } fallback = .ok c ∧
    Extraction.make { s with engine := .text "interpreted" } fallback = .ok i ∧
    ∀ value, Agreement [value] True (fun v => x.layout.fields ≠ [] ∧ v = value) (c.run value)
      (i.run value)
  combination : ∀ s x, Combination.make s fallback = .ok x → ∃ c i,
    Combination.make { s with engine := .text "compiled" } fallback = .ok c ∧
    Combination.make { s with engine := .text "interpreted" } fallback = .ok i ∧
    ∀ values keywords, Agreement (values ++ keywords.map Prod.snd)
      (∃ bound, x.layout.bind values keywords none = .ok bound)
      (fun v => ∃ bound, x.layout.bind values keywords none = .ok bound ∧ v ∈ bound)
      (c.call values keywords) (i.call values keywords)
  replacement : ∀ s x, Replacement.make s fallback = .ok x → ∃ c i,
    Replacement.make { s with engine := .text "compiled" } fallback = .ok c ∧
    Replacement.make { s with engine := .text "interpreted" } fallback = .ok i ∧
    ∀ target values keywords, Agreement (target :: values ++ keywords.map Prod.snd)
      (∃ bound, x.layout.bind values keywords none = .ok bound)
      (fun v => (x.layout.template.placeholderMask ≠ 0 ∧ v = target) ∨
        ∃ bound, x.layout.bind values keywords none = .ok bound ∧ v ∈ bound)
      (c.call target values keywords) (i.call target values keywords)
  transfer : ∀ s x, Transfer.make s fallback = .ok x → ∃ c i,
    Transfer.make { s with engine := .text "compiled" } fallback = .ok c ∧
    Transfer.make { s with engine := .text "interpreted" } fallback = .ok i ∧
    ∀ values, Agreement values (values.length = x.inputs.length)
      (fun v => ∃ pair ∈ x.slots, values[pair.2.index]? = some v) (c.run values) (i.run values)

theorem engines_agree (fallback : Option String) : EnginesAgree fallback where
  extraction s x h := by
    obtain ⟨_, f, hf, _, hc, hi⟩ := Extraction.make_engines h
    exact ⟨_, _, hc, hi, Extraction.agreement hf hc hi⟩
  combination s x h := by
    obtain ⟨_, f, hf, _, hc, hi⟩ := Combination.make_engines h
    exact ⟨_, _, hc, hi, Combination.agreement hf hc hi⟩
  replacement s x h := by
    obtain ⟨_, f, hf, _, hc, hi⟩ := Replacement.make_engines h
    exact ⟨_, _, hc, hi, Replacement.agreement hf hc hi⟩
  transfer s x h := by
    obtain ⟨f, _, _, hc, hi⟩ := Transfer.make_engines h
    exact ⟨_, _, hc, hi, Transfer.agreement hc hi⟩

/-- All four operations can be made of templates with interleaved letters. -/
theorem engines_agree_interleaved :
    (∃ x c i, Extraction.make { template := .text "aab.bacc" } none = .ok x ∧
      Extraction.make { template := .text "aab.bacc", engine := .text "compiled" } none = .ok c ∧
      Extraction.make { template := .text "aab.bacc", engine := .text "interpreted" } none =
        .ok i ∧
      Agreement [.int (-3)] True (fun v => x.layout.fields ≠ [] ∧ v = .int (-3))
        (c.run (.int (-3))) (i.run (.int (-3)))) ∧
    (∃ x c i, Combination.make { template := .text "aab1b0cc" } none = .ok x ∧
      Combination.make { template := .text "aab1b0cc", engine := .text "compiled" } none = .ok c ∧
      Combination.make { template := .text "aab1b0cc", engine := .text "interpreted" } none =
        .ok i ∧
      Agreement [.int 9, .bool true, .proxy 2 "two"]
        (∃ bound, x.layout.bind [.int 9, .bool true, .proxy 2 "two"] [] none = .ok bound)
        (fun v => ∃ bound, x.layout.bind [.int 9, .bool true, .proxy 2 "two"] [] none = .ok bound ∧
          v ∈ bound)
        (c.call [.int 9, .bool true, .proxy 2 "two"] [])
        (i.call [.int 9, .bool true, .proxy 2 "two"] [])) ∧
    (∃ x c i, Replacement.make { template := .text "a.b1ba.." } none = .ok x ∧
      Replacement.make { template := .text "a.b1ba..", engine := .text "compiled" } none = .ok c ∧
      Replacement.make { template := .text "a.b1ba..", engine := .text "interpreted" } none =
        .ok i ∧
      Agreement [.int (-1), .int 2, .int 1]
        (∃ bound, x.layout.bind [.int 2, .int 1] [] none = .ok bound)
        (fun v => (x.layout.template.placeholderMask ≠ 0 ∧ v = .int (-1)) ∨
          ∃ bound, x.layout.bind [.int 2, .int 1] [] none = .ok bound ∧ v ∈ bound)
        (c.call (.int (-1)) [.int 2, .int 1] []) (i.call (.int (-1)) [.int 2, .int 1] [])) ∧
    (∃ x c i, Transfer.make ⟨.text "aab.bbcc", .text "1cb0b0ba", .base .binary, .text "panic",
        .none⟩ none = .ok x ∧
      Transfer.make ⟨.text "aab.bbcc", .text "1cb0b0ba", .base .binary, .text "panic",
        .text "compiled"⟩ none = .ok c ∧
      Transfer.make ⟨.text "aab.bbcc", .text "1cb0b0ba", .base .binary, .text "panic",
        .text "interpreted"⟩ none = .ok i ∧
      Agreement [.int 200] (1 = x.inputs.length)
        (fun v => ∃ pair ∈ x.slots, [Value.int 200][pair.2.index]? = some v)
        (c.run [.int 200]) (i.run [.int 200])) := by
  have hagree := engines_agree none
  refine ⟨?_, ?_, ?_, ?_⟩
  · obtain ⟨x, hx⟩ : ∃ x, Extraction.make { template := .text "aab.bacc" } none = .ok x :=
      ⟨_, rfl⟩
    obtain ⟨c, i, hc, hi, h⟩ := hagree.extraction _ x hx
    exact ⟨x, c, i, hx, hc, hi, h (.int (-3))⟩
  · obtain ⟨x, hx⟩ : ∃ x, Combination.make { template := .text "aab1b0cc" } none = .ok x :=
      ⟨_, rfl⟩
    obtain ⟨c, i, hc, hi, h⟩ := hagree.combination _ x hx
    exact ⟨x, c, i, hx, hc, hi, h [.int 9, .bool true, .proxy 2 "two"] []⟩
  · obtain ⟨x, hx⟩ : ∃ x, Replacement.make { template := .text "a.b1ba.." } none = .ok x :=
      ⟨_, rfl⟩
    obtain ⟨c, i, hc, hi, h⟩ := hagree.replacement _ x hx
    exact ⟨x, c, i, hx, hc, hi, h (.int (-1)) [.int 2, .int 1] []⟩
  · obtain ⟨x, hx⟩ : ∃ x, Transfer.make ⟨.text "aab.bbcc", .text "1cb0b0ba", .base .binary,
        .text "panic", .none⟩ none = .ok x := ⟨_, rfl⟩
    obtain ⟨c, i, hc, hi, h⟩ := hagree.transfer _ x hx
    exact ⟨x, c, i, hx, hc, hi, h [.int 200]⟩

/-- A proxy is stored by one engine and refused by the other. -/
theorem proxy_parts_engines :
    ∃ c i, Combination.make { template := .text "aaaaaaaa", engine := .text "compiled" } none =
        .ok c ∧
      Combination.make { template := .text "aaaaaaaa", engine := .text "interpreted" } none =
        .ok i ∧
      i.call [.proxy 5 "five"] [] = .ok (.value (.int 5)) ∧
      c.call [.proxy 5 "five"] [] = .error .wrongKind := by
  obtain ⟨x, hx⟩ : ∃ x, Combination.make { template := .text "aaaaaaaa" } none = .ok x := ⟨_, rfl⟩
  obtain ⟨_, f, hf, _, hc, hi⟩ := Combination.make_engines hx
  have hbind : x.layout.bind [.proxy 5 "five"] [] none = .ok [.proxy 5 "five"] :=
    eq_of_map_eq_ok hx (fun x => x.layout.bind [.proxy 5 "five"] [] none) (by rfl)
  have hstored : { x with executor := .interpreted }.call [.proxy 5 "five"] [] =
      .ok (.value (.int 5)) :=
    eq_of_map_eq_ok hi (fun i => i.call [.proxy 5 "five"] []) (by rfl)
  refine ⟨_, _, hc, hi, hstored, ?_⟩
  exact (Combination.agreement hf hc hi [.proxy 5 "five"] []).refused _ _ hstored
    ⟨_, hbind, List.mem_singleton_self _⟩ rfl

end BitTemplate
