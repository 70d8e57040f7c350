import BitTemplate.Proofs.Scope

/-!
What generated code does with variables that hold no integer. An expression takes every variable
that it mentions for an integer, and fails in one way if there is none, so that a single such
variable is enough. Storing reads the letters of all slots, in its steps or in what it returns, and
the variable whose bits are kept, if any are. A proxy, which gives an integer only when it is asked
for it, is not asked, so it is as good as no integer here.
-/
namespace BitTemplate

open Failure

/-- Whether a value gives an integer only when it is asked for it. -/
def Value.isProxy : Value → Bool
  | .proxy _ _ => true
  | _ => false

theorem toInt?_of_isProxy {v : Value} (h : v.isProxy = true) : v.toInt? = none := by
  cases v with
  | proxy n shown => rfl
  | _ => cases h

theorem toInt?_of_not_isProxy {v : Value} (h : v.isProxy = false) : v.toInt? = v.index? := by
  cases v with
  | proxy n shown => cases h
  | _ => rfl

theorem operand_of_not_isProxy {v : Value} (h : v.isProxy = false) : v.operand = v.integer := by
  rw [Value.operand, Value.integer, toInt?_of_not_isProxy h]

namespace Program

variable {env : Env} {x : Name}

theorem Term.eval_eq_error {t : Term} {e : Error} (h : t.eval env = .error e) : e = .wrongKind := by
  induction t generalizing e with
  | name x => exact operand_eq_error h
  | constant c => cases h
  | mask t c ih | left t distance ih | right t distance ih =>
    rcases (bind_eq_error_iff _ _ _).mp h with h | ⟨_, _, h⟩
    · exact ih h
    · cases h

theorem Term.eval_of_mem_names {t : Term} (hx : x ∈ t.names) (h : (env x).toInt? = none) :
    t.eval env = .error .wrongKind := by
  induction t with
  | name y =>
    obtain rfl := List.mem_singleton.mp hx
    exact operand_of_toInt?_eq_none h
  | constant c => cases hx
  | mask t c ih | left t distance ih | right t distance ih =>
    rw [Term.eval, ih hx]
    rfl

theorem evalUnion_of_mem_names {terms : List Term} (hx : x ∈ terms.flatMap Term.names)
    (h : (env x).toInt? = none) : evalUnion env terms = .error .wrongKind := by
  obtain ⟨t, ht, hx⟩ := List.mem_flatMap.mp hx
  rw [evalUnion, mapM_eq_error_of_mem (f := Term.eval env) (fun _ _ _ => Term.eval_eq_error) ht
    (Term.eval_of_mem_names hx h)]
  rfl

theorem Expr.eval_of_mem_names {e : Expr} (hx : x ∈ e.names) (h : (env x).toInt? = none) :
    e.eval env = .error .wrongKind := by
  cases e with
  | union terms =>
    rw [Expr.eval, evalUnion_of_mem_names hx h]
    rfl
  | bounded terms c =>
    rw [Expr.eval, evalUnion_of_mem_names hx h]
    rfl
  | test y c =>
    obtain rfl := List.mem_singleton.mp hx
    rw [Expr.eval, operand_of_toInt?_eq_none h]
    rfl

theorem Expr.eval_eq_error {e : Expr} {err : Error} (h : e.eval env = .error err) :
    err = .wrongKind := by
  have hunion {terms : List Term} {err : Error} (h : evalUnion env terms = .error err) :
      err = .wrongKind := by
    rcases (bind_eq_error_iff _ _ _).mp h with h | ⟨_, _, h⟩
    · obtain ⟨_, t, _, _, _, ht⟩ := (mapM_eq_error_iff _ _ _).mp h
      exact Term.eval_eq_error ht
    · cases h
  cases e with
  | union terms =>
    rcases (bind_eq_error_iff _ _ _).mp h with h | ⟨_, _, h⟩
    · exact hunion h
    · cases h
  | bounded terms c =>
    rcases (bind_eq_error_iff _ _ _).mp h with h | ⟨_, _, h⟩
    · exact hunion h
    · cases h
  | test y c =>
    rcases (bind_eq_error_iff _ _ _).mp h with h | ⟨_, _, h⟩
    · exact operand_eq_error h
    · cases h

theorem source_mem_names_extract {width : Nat} {f : Field} {source : Name} {shape : Option Shape}
    {e : Expr} (h : extract width f source shape = .ok e) : source ∈ e.names := by
  unfold extract at h
  split at h
  · obtain ⟨c, _, hexpr⟩ := (bind_eq_ok_iff _ _ _).mp h
    cases hexpr
    exact List.mem_singleton_self source
  · obtain ⟨terms, hterms, hexpr⟩ := (bind_eq_ok_iff _ _ _).mp h
    cases hexpr
    obtain ⟨s, rest, hsegments⟩ := List.exists_cons_of_ne_nil f.segments_ne_nil
    rw [hsegments, mapM_cons, bind_eq_ok_iff] at hterms
    obtain ⟨t, ht, hrest⟩ := hterms
    obtain ⟨ts, _, rfl⟩ := (map_eq_ok_iff _ _ _).mp hrest
    refine List.mem_flatMap.mpr ⟨t, List.mem_cons_self .., ?_⟩
    rw [names_extractTerm ht]
    exact List.mem_singleton_self source

theorem source_mem_names_deposit {width : Nat} {slot : Slot} {source : Name} {terms : List Term}
    (h : deposit width slot source = .ok terms) : source ∈ terms.flatMap Term.names := by
  have hnames := names_deposit h
  obtain ⟨parts, hparts, hterms⟩ := (bind_eq_ok_iff _ _ _).mp h
  obtain ⟨s, rest, hsegments⟩ := List.exists_cons_of_ne_nil slot.field.segments_ne_nil
  rw [hsegments, mapM_cons, bind_eq_ok_iff] at hparts
  obtain ⟨t, _, hrest⟩ := hparts
  obtain ⟨ts, _, rfl⟩ := (map_eq_ok_iff _ _ _).mp hrest
  have ht : t ∈ terms := by
    split at hterms <;> cases hterms <;> simp
  refine List.mem_flatMap.mpr ⟨t, ht, ?_⟩
  rw [hnames t ht]
  exact List.mem_singleton_self source

/-- Where a letter holds a proxy, the steps of its slot read it and fail, or there are none. -/
theorem adapt_of_proxy {slot : Slot} (fresh : Nat)
    (h : (env (.letter slot.name)).isProxy = true) :
    (adapt slot (.letter slot.name) fresh).1.foldlM Step.run env = .error .wrongKind ∨
      (adapt slot (.letter slot.name) fresh).1 = [] ∧
        (adapt slot (.letter slot.name) fresh).2.1 = .letter slot.name := by
  have hexceeds (limit : Nat) : exceeds (env (.letter slot.name)) limit = .error .wrongKind := by
    cases hv : env (.letter slot.name) with
    | proxy n shown => rfl
    | _ =>
      rw [hv] at h
      cases h
  unfold adapt
  split
  · cases slot.overflow with
    | truncate => exact Or.inr ⟨rfl, rfl⟩
    | corrupt => exact Or.inr ⟨rfl, rfl⟩
    | panic =>
      left
      simp only [List.foldlM_cons, Step.run, hexceeds]
      rfl
    | saturate =>
      left
      simp only [List.foldlM_cons, Step.run, hexceeds]
      rfl
  · exact Or.inr ⟨rfl, rfl⟩

/-- If the integer that a letter holds or gives would pass, the steps of its slot fail at a proxy or
run to their end. They assign fresh variables only, and a proxy that they did not read stays where
it is. -/
theorem adapt_of_index {slot : Slot} (fresh : Nat) {n u : Int}
    (h : (env (.letter slot.name)).index? = some n) (hpass : slot.pass n = .ok u) :
    (adapt slot (.letter slot.name) fresh).1.foldlM Step.run env = .error .wrongKind ∨
      ∃ env', (adapt slot (.letter slot.name) fresh).1.foldlM Step.run env = .ok env' ∧
        (∀ y, (∀ k, fresh ≤ k → y ≠ .saturated k) → env' y = env y) ∧
        ((env (.letter slot.name)).isProxy = true →
          (adapt slot (.letter slot.name) fresh).2.1 = .letter slot.name) := by
  cases hproxy : (env (.letter slot.name)).isProxy with
  | true =>
    rcases adapt_of_proxy fresh hproxy with herror | ⟨hnone, hsource⟩
    · exact Or.inl herror
    · refine Or.inr ⟨env, ?_, fun _ _ => rfl, fun _ => hsource⟩
      rw [hnone]
      rfl
  | false =>
    have hpasses := passes_adapt slot fresh env n (by rw [toInt?_of_not_isProxy hproxy, h])
    rw [hpass] at hpasses
    obtain ⟨env', hrun, _, hframe⟩ := hpasses
    exact Or.inr ⟨env', hrun, hframe, by simp⟩

theorem adaptAll_of_index {slots : List Slot} (fresh : Nat) {integers us : List Int}
    (h : List.Forall₂ (fun slot n => (env (.letter slot.name)).index? = some n) slots integers)
    (hpass : passAll slots integers = .ok us) :
    (adaptAll slots fresh).1.foldlM Step.run env = .error .wrongKind ∨
      ∃ env', (adaptAll slots fresh).1.foldlM Step.run env = .ok env' ∧
        (∀ y, (∀ k, fresh ≤ k → y ≠ .saturated k) → env' y = env y) ∧
        ∀ slot ∈ slots, (env (.letter slot.name)).isProxy = true →
          (slot, .letter slot.name) ∈ slots.zip (adaptAll slots fresh).2 := by
  induction slots generalizing fresh env integers us with
  | nil => exact Or.inr ⟨env, rfl, fun _ _ => rfl, by simp⟩
  | cons slot rest ih =>
    cases h with
    | @cons _ n _ ns hn hrest =>
    rw [passAll_cons, bind_eq_ok_iff] at hpass
    obtain ⟨u, hu, hpass⟩ := hpass
    obtain ⟨us, hus, _⟩ := (map_eq_ok_iff _ _ _).mp hpass
    rw [adaptAll_cons, List.foldlM_append]
    rcases adapt_of_index fresh hn hu with herror | ⟨env₁, hrun₁, hframe₁, hsource⟩
    · rw [herror]
      exact Or.inl rfl
    rw [hrun₁, ok_bind]
    -- Letters are never assigned, so the later slots still find their values.
    have hletter (a : Letter) : env₁ (.letter a) = env (.letter a) := hframe₁ _ (by simp)
    have hrest₁ : List.Forall₂ (fun slot n => (env₁ (.letter slot.name)).index? = some n)
        rest ns := by
      refine hrest.imp ?_
      intro slot n hn
      rwa [hletter]
    rcases ih (adapt slot (.letter slot.name) fresh).2.2 hrest₁ hus with
      herror | ⟨env₂, hrun₂, hframe₂, hsources⟩
    · exact Or.inl herror
    · refine Or.inr ⟨env₂, hrun₂, ?_, ?_⟩
      · intro y hy
        rw [hframe₂ y fun k hk => hy k ((adapt_fresh slot fresh).1.trans hk)]
        exact hframe₁ y hy
      · rw [List.zip_cons_cons, List.forall_mem_cons]
        refine ⟨?_, ?_⟩
        · intro hproxy
          rw [hsource hproxy]
          exact List.mem_cons_self
        · intro slot' hslot' hproxy
          rw [← hletter] at hproxy
          exact List.mem_cons_of_mem _ (hsources slot' hslot' hproxy)

/-- Storing fails if a letter holds a proxy, or the variable whose bits are kept does, provided that
the integers that the letters hold or give would pass. -/
theorem combine_of_proxy {layout : Layout} {slots : List Slot} {kept : Option Name}
    {steps : List Step} {e : Expr} (h : combine layout slots kept = .ok (steps, e))
    {integers us : List Int}
    (hletters : List.Forall₂ (fun slot n => (env (.letter slot.name)).index? = some n) slots
      integers)
    (hpass : passAll slots integers = .ok us)
    (hproxy : (∃ slot ∈ slots, (env (.letter slot.name)).isProxy = true) ∨
      ∃ y, kept = some y ∧ (∀ k, y ≠ .saturated k) ∧ layout.template.placeholderMask ≠ 0 ∧
        (env y).isProxy = true) :
    (steps.foldlM Step.run env >>= fun env' => e.eval env') = .error .wrongKind := by
  obtain ⟨keptTerms, stored, fixed, hkept, hstored, _, rfl, rfl⟩ := combine_eq_ok h
  rcases adaptAll_of_index 0 hletters hpass with herror | ⟨env', hrun, hframe, hsources⟩
  · rw [herror]
    rfl
  rw [hrun, ok_bind]
  obtain ⟨y, hy, hnone⟩ : ∃ y ∈ (keptTerms ++ stored.flatten ++ fixed).flatMap Term.names,
      (env' y).toInt? = none := by
    rcases hproxy with ⟨slot, hslot, hproxy⟩ | ⟨y, rfl, hfree, hmask, hproxy⟩
    · obtain ⟨terms, hterms, hdeposit⟩ := exists_mem_of_mapM hstored (hsources slot hslot hproxy)
      refine ⟨.letter slot.name, ?_, ?_⟩
      · obtain ⟨t, ht, hname⟩ := List.mem_flatMap.mp (source_mem_names_deposit hdeposit)
        exact List.mem_flatMap.mpr ⟨t, by simp [List.mem_flatten_of_mem hterms ht], hname⟩
      · rw [hframe _ (by simp)]
        exact toInt?_of_isProxy hproxy
    · rw [Option.elim_some, unlessZero, if_neg hmask] at hkept
      obtain ⟨c, _, rfl⟩ := (map_eq_ok_iff _ _ _).mp hkept
      refine ⟨y, by simp [Term.names], ?_⟩
      rw [hframe y fun k _ => hfree k]
      exact toInt?_of_isProxy hproxy
  refine Expr.eval_of_mem_names ?_ hnone
  split <;> exact hy

end Program

end BitTemplate
