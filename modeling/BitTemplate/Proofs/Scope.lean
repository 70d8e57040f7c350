import BitTemplate.Proofs.Figures
import BitTemplate.Proofs.Words

/-!
The names that the code of an operation looks up. Its variables are the parameters and what is
assigned, and every variable that is mentioned is one of these. So of all words in the text of the
function the only ones that are left to its surroundings are what it calls: the function that
refuses a value, the minimum, and a record.
-/
namespace BitTemplate

open Failure

namespace Program

/-- No variable has the name of a function that a step calls. -/
theorem Name.text_ne_call (x : Name) : x.text ≠ "overflow" ∧ x.text ≠ "min" := by
  have hlist {t : String} (h : x.text.toList ≠ t.toList) : x.text ≠ t := fun heq => h (heq ▸ rfl)
  cases x with
  | value => decide
  | target => decide
  | letter a => exact ⟨hlist (by simp [text, Letter.text]), hlist (by simp [text, Letter.text])⟩
  | input index => exact ⟨hlist (by simp [text]), hlist (by simp [text])⟩
  | saturated index => exact ⟨hlist (by simp [text]), hlist (by simp [text])⟩

theorem Step.mem_words {step : Step} {w : String} (h : w ∈ step.words) :
    w ∈ Text.keywords ∨ w ∈ (step.mentions ++ step.assigns).map Name.text ∨ w ∈ step.calls := by
  cases step with
  | refuse x field limit =>
    simp only [words, List.mem_cons, List.not_mem_nil, or_false] at h
    rcases h with rfl | rfl | rfl | rfl | rfl
    · exact .inl (by decide)
    · exact .inr (.inl (by simp [mentions]))
    · exact .inr (.inr (by simp [calls]))
    · exact .inr (.inl (by simp [mentions, Name.text]))
    · exact .inr (.inl (by simp [mentions]))
  | clamp x source limit =>
    simp only [words, List.mem_cons, List.not_mem_nil, or_false] at h
    rcases h with rfl | rfl | rfl
    · exact .inr (.inl (by simp [assigns]))
    · exact .inr (.inr (by simp [calls]))
    · exact .inr (.inl (by simp [mentions]))
  | assign x e =>
    rcases List.mem_cons.mp h with rfl | h
    · exact .inr (.inl (by simp [assigns]))
    · rw [List.map_append]
      exact .inr (.inl (List.mem_append_left _ h))

theorem Step.calls_subset_words (step : Step) : ∀ g ∈ step.calls, g ∈ step.words := by
  cases step <;> simp [calls, words]

namespace Function

def mentions (f : Function) : List Name := f.steps.flatMap Step.mentions ++ f.result.names

def bound (f : Function) : List Name := f.params ++ f.steps.flatMap Step.assigns

def calls (f : Function) : List String :=
  f.steps.flatMap Step.calls ++ f.result.record?.toList

/-- The words in the text of a function, after its own name, that are neither words of the language
nor its variables. They are looked up outside of the function. -/
def globals (f : Function) : List String :=
  ((Text.words f.text).drop 2).filter fun w => w ∉ Text.keywords ∧ w ∉ f.bound.map Name.text

/-- Every variable that is mentioned is a parameter or assigned. -/
def Closed (f : Function) : Prop := ∀ x ∈ f.mentions, x ∈ f.bound

theorem mem_calls {f : Function} {g : String} (h : g ∈ f.calls) :
    g = "overflow" ∨ g = "min" ∨ f.result.record? = some g := by
  rcases List.mem_append.mp h with h | h
  · obtain ⟨step, _, hg⟩ := List.mem_flatMap.mp h
    cases step with
    | refuse x field limit => exact .inl (List.mem_singleton.mp hg)
    | clamp x source limit => exact .inr (.inl (List.mem_singleton.mp hg))
    | assign x e => simp [Step.calls] at hg
  · exact .inr (.inr (Option.mem_toList.mp h))

/-- Every word of closed code is one of the language, one of its variables, or is called. -/
theorem Closed.mem_laterWords {f : Function} (h : f.Closed) {w : String} (hw : w ∈ f.laterWords) :
    w ∈ Text.keywords ∨ w ∈ f.bound.map Name.text ∨ w ∈ f.calls := by
  have hmentions {x : Name} (hx : x ∈ f.mentions) : x.text ∈ f.bound.map Name.text :=
    List.mem_map_of_mem (h x hx)
  simp only [laterWords, List.mem_append, List.mem_cons] at hw
  rcases hw with (hw | hw) | rfl | hw | hw
  · rw [bound, List.map_append]
    exact .inr (.inl (List.mem_append_left _ hw))
  · obtain ⟨step, hstep, hw⟩ := List.mem_flatMap.mp hw
    rcases Step.mem_words hw with hw | hw | hw
    · exact .inl hw
    · obtain ⟨x, hx, rfl⟩ := List.mem_map.mp hw
      rcases List.mem_append.mp hx with hx | hx
      · have hx : x ∈ f.mentions := List.mem_append_left _ (List.mem_flatMap.mpr ⟨step, hstep, hx⟩)
        exact .inr (.inl (hmentions hx))
      · have hx : x ∈ f.bound := List.mem_append_right _ (List.mem_flatMap.mpr ⟨step, hstep, hx⟩)
        exact .inr (.inl (List.mem_map_of_mem hx))
    · exact .inr (.inr (List.mem_append_left _ (List.mem_flatMap.mpr ⟨step, hstep, hw⟩)))
  · exact .inl (by decide)
  · exact .inr (.inr (List.mem_append_right _ hw))
  · obtain ⟨x, hx, rfl⟩ := List.mem_map.mp hw
    exact .inr (.inl (hmentions (List.mem_append_right _ hx)))

theorem calls_subset_laterWords (f : Function) : ∀ g ∈ f.calls, g ∈ f.laterWords := by
  intro g hg
  simp only [laterWords, List.mem_append, List.mem_cons]
  rcases List.mem_append.mp hg with hg | hg
  · obtain ⟨step, hstep, hg⟩ := List.mem_flatMap.mp hg
    exact .inl (.inr (List.mem_flatMap.mpr ⟨step, hstep, step.calls_subset_words g hg⟩))
  · exact .inr (.inr (.inl hg))

/-- Code that is closed looks up what it calls, and nothing else. -/
theorem Closed.mem_globals_iff {f : Function} (h : f.Closed) (hname : Text.isIdentifier f.name)
    (hrecord : ∀ r, f.result.record? = some r →
      Text.isFreeName r ∧ r ∉ f.bound.map Name.text) {g : String} :
    g ∈ f.globals ↔ g ∈ f.calls := by
  have hfree {r : String} (hr : f.result.record? = some r) :=
    Text.isFreeName_iff.mp (hrecord r hr).1
  rw [globals, f.words_text hname fun r hr => (hfree hr).1, List.drop_succ_cons,
    List.drop_succ_cons, List.drop_zero, List.mem_filter, decide_eq_true_eq]
  constructor
  · rintro ⟨hg, hkeyword, houtside⟩
    rcases h.mem_laterWords hg with hg | hg | hg
    · exact absurd hg hkeyword
    · exact absurd hg houtside
    · exact hg
  · intro hg
    refine ⟨f.calls_subset_laterWords g hg, ?_⟩
    rcases mem_calls hg with rfl | rfl | hr
    · refine ⟨by decide, fun hbound => ?_⟩
      obtain ⟨x, _, hx⟩ := List.mem_map.mp hbound
      exact x.text_ne_call.1 hx
    · refine ⟨by decide, fun hbound => ?_⟩
      obtain ⟨x, _, hx⟩ := List.mem_map.mp hbound
      exact x.text_ne_call.2 hx
    · exact ⟨(hfree hr).2, (hrecord g hr).2⟩

end Function

theorem names_extractTerm {width : Nat} {source : Name} {s : Segment} {t : Term}
    (h : extractTerm width source s = .ok t) : t.names = [source] := by
  obtain ⟨c, _, hterm⟩ := (bind_eq_ok_iff _ _ _).mp h
  split at hterm
  · cases hterm
    rfl
  · split at hterm <;> cases hterm <;> rfl

theorem names_extract {width : Nat} {f : Field} {source : Name} {shape : Option Shape} {e : Expr}
    (h : extract width f source shape = .ok e) : ∀ x ∈ e.names, x = source := by
  intro x hx
  unfold extract at h
  split at h
  · obtain ⟨c, _, hexpr⟩ := (bind_eq_ok_iff _ _ _).mp h
    cases hexpr
    exact List.mem_singleton.mp hx
  · obtain ⟨terms, hterms, hexpr⟩ := (bind_eq_ok_iff _ _ _).mp h
    cases hexpr
    obtain ⟨t, ht, hx⟩ := List.mem_flatMap.mp hx
    obtain ⟨s, _, hs⟩ := exists_of_mem_mapM hterms ht
    rw [names_extractTerm hs] at hx
    exact List.mem_singleton.mp hx

theorem names_depositTerm {width : Nat} {source : Name} {s : Segment} {t : Term}
    (h : depositTerm width source s = .ok t) : t.names = [source] := by
  obtain ⟨c, _, hterm⟩ := (bind_eq_ok_iff _ _ _).mp h
  cases hterm
  rw [Term.names]
  split
  · rfl
  · split <;> rfl

theorem names_deposit {width : Nat} {slot : Slot} {source : Name} {terms : List Term}
    (h : deposit width slot source = .ok terms) : ∀ t ∈ terms, t.names = [source] := by
  obtain ⟨parts, hparts, hterms⟩ := (bind_eq_ok_iff _ _ _).mp h
  have hnames : ∀ t ∈ parts, t.names = [source] := by
    intro t ht
    obtain ⟨s, _, hs⟩ := exists_of_mem_mapM hparts ht
    exact names_depositTerm hs
  split at hterms
  · cases hterms
    intro t ht
    rcases List.mem_append.mp ht with ht | ht
    · exact hnames t ht
    · rw [List.mem_singleton.mp ht]
      rfl
  · cases hterms
    exact hnames

theorem names_unlessZero {n width : Nat} {term : Constant → Term} {terms : List Term}
    (names : List Name) (hterm : ∀ c, (term c).names = names)
    (h : unlessZero n width term = .ok terms) : ∀ t ∈ terms, t.names = names := by
  unfold unlessZero at h
  split at h
  · cases h
    simp
  · obtain ⟨c, _, rfl⟩ := (map_eq_ok_iff _ _ _).mp h
    simpa using hterm c

/-- A value is checked in the variable that it comes in. It stays there, or the variable that holds
it then is a new one. -/
theorem names_adapt (slot : Slot) (fresh : Nat) :
    (∀ step ∈ (adapt slot (.letter slot.name) fresh).1,
      ∀ x ∈ step.mentions, x = .letter slot.name) ∧
    ((adapt slot (.letter slot.name) fresh).2.1 = .letter slot.name ∨
      (adapt slot (.letter slot.name) fresh).2.1 ∈
        (adapt slot (.letter slot.name) fresh).1.flatMap Step.assigns) := by
  unfold adapt
  split
  · cases slot.overflow with
    | panic => exact ⟨by simp [Step.mentions], .inl rfl⟩
    | saturate => exact ⟨by simp [Step.mentions], .inr (by simp [Step.assigns])⟩
    | truncate => exact ⟨by simp, .inl rfl⟩
    | corrupt => exact ⟨by simp, .inl rfl⟩
  · exact ⟨by simp, .inl rfl⟩

theorem names_adaptAll (slots : List Slot) (fresh : Nat) :
    (∀ x ∈ (adaptAll slots fresh).1.flatMap Step.mentions,
      x ∈ slots.map fun slot => Name.letter slot.name) ∧
    ∀ x ∈ (adaptAll slots fresh).2, x ∈ (slots.map fun slot => Name.letter slot.name) ++
      (adaptAll slots fresh).1.flatMap Step.assigns := by
  induction slots generalizing fresh with
  | nil => simp [adaptAll]
  | cons slot rest ih =>
    obtain ⟨hmentions, hsource⟩ := names_adapt slot fresh
    obtain ⟨ihmentions, ihsources⟩ := ih (adapt slot (.letter slot.name) fresh).2.2
    rw [adaptAll_cons, List.map_cons]
    constructor
    · intro x hx
      rw [List.flatMap_append, List.mem_append] at hx
      rcases hx with hx | hx
      · obtain ⟨step, hstep, hx⟩ := List.mem_flatMap.mp hx
        rw [hmentions step hstep x hx]
        exact List.mem_cons_self
      · exact List.mem_cons_of_mem _ (ihmentions x hx)
    · intro x hx
      rw [List.flatMap_append]
      rcases List.mem_cons.mp hx with rfl | hx
      · rcases hsource with h | h
        · rw [h]
          exact List.mem_cons_self
        · exact List.mem_append_right _ (List.mem_append_left _ h)
      · have hrest := ihsources x hx
        simp only [List.mem_append, List.mem_cons] at hrest ⊢
        tauto

/-- Storing mentions the variable whose bits are kept, the letters of the slots, and what is
assigned before. -/
theorem names_combine {layout : Layout} {slots : List Slot} {kept : Option Name}
    {steps : List Step} {e : Expr} (h : combine layout slots kept = .ok (steps, e)) :
    ∀ x ∈ steps.flatMap Step.mentions ++ e.names,
      x ∈ kept.toList ++ (slots.map fun slot => Name.letter slot.name) ++
        steps.flatMap Step.assigns := by
  obtain ⟨keptTerms, stored, fixed, hkept, hstored, hfixed, rfl, rfl⟩ := combine_eq_ok h
  obtain ⟨hmentions, hsources⟩ := names_adaptAll slots 0
  intro x hx
  rcases List.mem_append.mp hx with hx | hx
  · exact List.mem_append_left _ (List.mem_append_right _ (hmentions x hx))
  have hx : x ∈ (keptTerms ++ stored.flatten ++ fixed).flatMap Term.names := by
    split at hx <;> exact hx
  obtain ⟨t, ht, hx⟩ := List.mem_flatMap.mp hx
  rw [List.mem_append, List.mem_append] at ht
  rcases ht with (ht | ht) | ht
  · cases kept with
    | none =>
      cases hkept
      simp at ht
    | some y =>
      rw [names_unlessZero [y] (fun c => rfl) hkept t ht] at hx
      exact List.mem_append_left _ (List.mem_append_left _ hx)
  · obtain ⟨terms, hterms, ht⟩ := List.mem_flatten.mp ht
    obtain ⟨pair, hpair, hdeposit⟩ := exists_of_mem_mapM hstored hterms
    rw [names_deposit hdeposit t ht, List.mem_singleton] at hx
    have hsource := hsources pair.2 (List.of_mem_zip hpair).2
    rw [hx, List.append_assoc]
    exact List.mem_append_right _ hsource
  · rw [names_unlessZero [] (fun c => rfl) hfixed t ht] at hx
    cases hx

theorem closed_extraction {name : String} {record : Option String} {width : Nat}
    {shaped : List (Field × Shape)} {f : Function}
    (h : extraction name record width shaped = .ok f) :
    f.Closed ∧ f.bound = [.value] ∧ f.result.record? = record := by
  obtain ⟨items, hitems, hf⟩ := (bind_eq_ok_iff _ _ _).mp h
  have hnames : ∀ x ∈ items.flatMap Expr.names, x = .value := by
    intro x hx
    obtain ⟨e, he, hx⟩ := List.mem_flatMap.mp hx
    obtain ⟨pair, _, hextract⟩ := exists_of_mem_mapM hitems he
    exact names_extract hextract x hx
  cases hf
  cases record with
  | none => exact ⟨fun x hx => List.mem_singleton.mpr (hnames x hx), rfl, rfl⟩
  | some record => exact ⟨fun x hx => List.mem_singleton.mpr (hnames x hx), rfl, rfl⟩

theorem closed_combination {name : String} {layout : Layout} {slots : List Slot} {f : Function}
    (h : combination name layout slots = .ok f) : f.Closed ∧ f.result.record? = none := by
  obtain ⟨⟨steps, e⟩, hcombine, hf⟩ := (bind_eq_ok_iff _ _ _).mp h
  cases hf
  exact ⟨names_combine hcombine, rfl⟩

theorem closed_replacement {name : String} {layout : Layout} {slots : List Slot} {f : Function}
    (h : replacement name layout slots = .ok f) : f.Closed ∧ f.result.record? = none := by
  obtain ⟨⟨steps, e⟩, hcombine, hf⟩ := (bind_eq_ok_iff _ _ _).mp h
  cases hf
  exact ⟨names_combine hcombine, rfl⟩

/-- The steps that take the letters out of the inputs assign each letter once, and mention inputs
only. -/
theorem names_taken {inputs : Nat} {slots : List (Slot × Source)}
    (hindex : ∀ pair ∈ slots, pair.2.index < inputs) {assigned : List Step}
    (h : slots.mapM (fun pair => do
      let e ← extract pair.2.field.templateWidth pair.2.field (.input pair.2.index) none
      return Step.assign (.letter pair.1.name) e) = .ok assigned) :
    assigned.flatMap Step.assigns = (slots.map Prod.fst).map (fun slot => Name.letter slot.name) ∧
      ∀ x ∈ assigned.flatMap Step.mentions, x ∈ (List.range inputs).map Name.input := by
  constructor
  · have hassigns : assigned.map Step.assigns =
        slots.map fun pair => [Name.letter pair.1.name] := by
      refine map_eq_of_mapM ?_ h
      intro pair _ step hstep
      obtain ⟨e, _, hstep⟩ := (bind_eq_ok_iff _ _ _).mp hstep
      cases hstep
      rfl
    rw [List.flatMap_def, hassigns, List.map_map, ← List.flatMap_def, ← List.map_eq_flatMap]
    rfl
  · intro x hx
    obtain ⟨step, hstep, hx⟩ := List.mem_flatMap.mp hx
    obtain ⟨pair, hpair, hassign⟩ := exists_of_mem_mapM h hstep
    obtain ⟨e, he, hstep⟩ := (bind_eq_ok_iff _ _ _).mp hassign
    cases hstep
    rw [names_extract he x hx]
    exact List.mem_map_of_mem (List.mem_range.mpr (hindex pair hpair))

/-- The letters are assigned from the inputs before they are stored. -/
theorem closed_transfer {name : String} {inputs : Nat} {output : Layout}
    {slots : List (Slot × Source)} (hindex : ∀ pair ∈ slots, pair.2.index < inputs)
    {f : Function} (h : transfer name inputs output slots = .ok f) :
    f.Closed ∧ f.result.record? = none := by
  obtain ⟨assigned, hassigned, hrest⟩ := (bind_eq_ok_iff _ _ _).mp h
  obtain ⟨⟨steps, e⟩, hcombine, hf⟩ := (bind_eq_ok_iff _ _ _).mp hrest
  cases hf
  refine ⟨?_, rfl⟩
  obtain ⟨hletters, hinputs⟩ := names_taken hindex hassigned
  intro x hx
  simp only [Function.mentions, Function.bound, List.flatMap_append, List.mem_append, Return.names]
    at hx ⊢
  have hstored := names_combine hcombine x
  rw [List.mem_append, Option.toList_none, List.nil_append, List.mem_append, ← hletters] at hstored
  rcases hx with (hx | hx) | hx
  · exact .inl (hinputs x hx)
  · exact .inr (hstored (.inl hx))
  · exact .inr (hstored (.inr hx))

end Program

namespace Operation

open Program

/-- An extraction returns the record that it is asked for, and the others return none. -/
theorem Made.record?_eq {op : Operation} (h : op.Made) {name : String} {record : Option String}
    {f : Function} (hf : op.function name record = .ok f)
    (hrecord : record = none ∨ ∃ x, op = .extraction x) : f.result.record? = record := by
  have hnone (hother : ∀ x, op ≠ .extraction x) : record = none :=
    hrecord.resolve_right fun ⟨x, hx⟩ => hother x hx
  cases h with
  | extraction _ =>
    obtain ⟨_, _, hresult⟩ := closed_extraction hf
    exact hresult
  | combination _ => exact (closed_combination hf).2.trans (hnone (by simp)).symm
  | replacement _ => exact (closed_replacement hf).2.trans (hnone (by simp)).symm
  | transfer h =>
    exact (closed_transfer (Transfer.slots_of_make h).2.2 hf).2.trans (hnone (by simp)).symm

/-- Only an extraction has a record, which must not have the name of the value that is read. -/
theorem Made.mem_globals_iff {op : Operation} (h : op.Made) {name : String} {record : Option String}
    (hrecord : ∀ r, record = some r → Text.isFreeName r ∧ r ≠ "value") {f : Function}
    (hf : op.function name record = .ok f) (hname : Text.isIdentifier f.name) {g : String} :
    g ∈ f.globals ↔ g ∈ f.calls := by
  cases h with
  | extraction h =>
    obtain ⟨hclosed, hbound, hresult⟩ := closed_extraction hf
    refine hclosed.mem_globals_iff hname fun r hr => ?_
    obtain ⟨hfree, hvalue⟩ := hrecord r (hresult.symm.trans hr)
    rw [hbound]
    exact ⟨hfree, fun hr => hvalue (List.mem_singleton.mp hr)⟩
  | combination h =>
    obtain ⟨hclosed, hnone⟩ := closed_combination hf
    exact hclosed.mem_globals_iff hname (by simp [hnone])
  | replacement h =>
    obtain ⟨hclosed, hnone⟩ := closed_replacement hf
    exact hclosed.mem_globals_iff hname (by simp [hnone])
  | transfer h =>
    obtain ⟨hclosed, hnone⟩ := closed_transfer (Transfer.slots_of_make h).2.2 hf
    exact hclosed.mem_globals_iff hname (by simp [hnone])

end Operation

end BitTemplate
