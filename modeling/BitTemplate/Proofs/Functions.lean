import BitTemplate.Operation.Extraction
import BitTemplate.Operation.Transfer
import BitTemplate.Proofs.Generation

/-!
What the generated functions return. A function finds its arguments in its parameters, which are
all different. On integers, each of the four functions returns what moving the bits directly gives,
or fails in the same way.
-/
namespace BitTemplate.Program

open Failure

/-- The value of an operation that gives one integer. -/
def single (n : Int) : Outcome := .value (.int n)

/-- Set the parameters of a function one after another. -/
def setAll (env : Env) (pairs : List (Name × Value)) : Env :=
  pairs.foldl (fun env pair => env.set pair.1 pair.2) env

theorem setAll_of_notMem (env : Env) (pairs : List (Name × Value)) (x : Name)
    (h : x ∉ pairs.map Prod.fst) : setAll env pairs x = env x := by
  induction pairs generalizing env with
  | nil => rfl
  | cons pair rest ih =>
    simp only [List.map_cons, List.mem_cons, not_or] at h
    change setAll (env.set pair.1 pair.2) rest x = env x
    rw [ih _ h.2]
    simp [Env.set, h.1]

/-- Different parameters hold their own arguments. -/
theorem holds_setAll (env : Env) (params : List Name) (hnodup : params.Nodup)
    {values : List Value} {integers : List Int} (hlength : params.length = values.length)
    (h : Stands values integers) : Holds (setAll env (params.zip values)) params integers := by
  induction params generalizing env values integers with
  | nil =>
    cases h with
    | nil => exact List.Forall₂.nil
    | cons _ _ => simp at hlength
  | cons x rest ih =>
    cases h with
    | nil => simp at hlength
    | @cons v n vs ns hv hrest =>
      rw [List.nodup_cons] at hnodup
      change Holds (setAll (env.set x v) (rest.zip vs)) (x :: rest) (n :: ns)
      refine List.Forall₂.cons ?_ (ih (env.set x v) hnodup.2 (by simpa using hlength) hrest)
      have hnot : x ∉ (rest.zip vs).map Prod.fst := by
        intro hx
        obtain ⟨pair, hpair, rfl⟩ := List.mem_map.mp hx
        exact hnodup.1 (List.of_mem_zip hpair).1
      rw [setAll_of_notMem _ _ _ hnot]
      simpa [Env.set] using hv

theorem holds_ofArguments (params : List Name) (hnodup : params.Nodup)
    {values : List Value} {integers : List Int} (hlength : params.length = values.length)
    (h : Stands values integers) : Holds (Env.ofArguments params values) params integers :=
  holds_setAll Env.empty params hnodup hlength h

theorem nodup_letters (slots : List Slot) (hnodup : (slots.map Slot.name).Nodup) :
    (slots.map fun slot => Name.letter slot.name).Nodup := by
  have hmap : (slots.map fun slot => Name.letter slot.name) =
      (slots.map Slot.name).map Name.letter := by
    simp
  rw [hmap]
  exact hnodup.map fun a b h => Name.letter.inj h

theorem nodup_target_letters (slots : List Slot) (hnodup : (slots.map Slot.name).Nodup) :
    (Name.target :: slots.map fun slot => Name.letter slot.name).Nodup := by
  rw [List.nodup_cons]
  exact ⟨by simp, nodup_letters slots hnodup⟩

/-- The function of an extraction returns the values of the fields in their shapes. -/
theorem exists_extraction (name : String) (record : Option String) (width : Nat)
    (shaped : List (Field × Shape)) (hwidth : ∀ pair ∈ shaped, pair.1.templateWidth = width) :
    ∃ f, extraction name record width shaped = .ok f ∧
      ∀ (v : Value) (n : Int), v.toInt? = some n →
        f.run [v] = .ok (.tuple (shaped.map fun pair =>
          pair.2.fromBits (.int (pair.1.extract n)))) := by
  have hitems : ∃ items,
      shaped.mapM (fun pair => extract width pair.1 .value (some pair.2)) = .ok items ∧
      ∀ (env : Env) (n : Int), (env .value).toInt? = some n →
        items.mapM (Expr.eval env) =
          .ok (shaped.map fun pair => pair.2.fromBits (.int (pair.1.extract n))) := by
    induction shaped with
    | nil => exact ⟨[], rfl, fun _ _ _ => rfl⟩
    | cons pair rest ih =>
      obtain ⟨items, hitems, hvalues⟩ := ih fun p hp => hwidth p (List.mem_cons_of_mem _ hp)
      obtain ⟨e, he, heval⟩ := exists_extract_shaped pair.1 .value pair.2
      rw [hwidth pair (List.mem_cons_self ..)] at he
      refine ⟨e :: items, ?_, ?_⟩
      · rw [mapM_cons, he, ok_bind, hitems, map_ok]
      · intro env n hn
        rw [mapM_cons, heval env n hn, ok_bind, hvalues env n hn, map_ok, List.map_cons]
  obtain ⟨items, hgenerate, hvalues⟩ := hitems
  unfold extraction
  rw [hgenerate, ok_bind]
  refine ⟨_, rfl, ?_⟩
  intro v n hn
  have henv : (Env.ofArguments [.value] [v] .value).toInt? = some n := by
    simpa [Env.ofArguments, Env.set] using hn
  change (Except.ok (Env.ofArguments [.value] [v]) >>= fun env => Return.eval env _) = _
  rw [ok_bind]
  cases record with
  | none =>
    rw [Return.eval, hvalues _ n henv]
    rfl
  | some record =>
    rw [Return.eval, hvalues _ n henv]
    rfl

/-- A function that returns one expression: its steps run, then the expression is evaluated. -/
theorem run_value (name : String) (params : List Name) (steps : List Step) (e : Expr)
    (arguments : List Value) :
    (Function.mk name params steps (.value e)).run arguments =
      (steps.foldlM Step.run (Env.ofArguments params arguments) >>=
        fun env => e.eval env).map Outcome.value := by
  unfold Function.run
  cases steps.foldlM Step.run (Env.ofArguments params arguments) with
  | error err => rfl
  | ok env =>
    change (e.eval env >>= fun v => Except.ok (Outcome.value v)) = (e.eval env).map Outcome.value
    exact bind_ok _ _

section Storing

variable (layout : Layout) (slots : List Slot)
  (hwidth : ∀ slot ∈ slots, slot.field.templateWidth = layout.width)
  (hnodup : (slots.map Slot.name).Nodup)

include hwidth hnodup

theorem exists_combination (name : String) :
    ∃ f, combination name layout slots = .ok f ∧
      ∀ (values : List Value) (integers : List Int), slots.length = values.length →
        Stands values integers →
        f.run values = (layout.combine slots values).map single := by
  obtain ⟨steps, e, hcombine, hrun⟩ := exists_combine layout slots none hwidth
  refine ⟨_, by rw [combination, hcombine]; rfl, ?_⟩
  intro values integers hlength hvalues
  have hholds := holds_ofArguments _ (nodup_letters slots hnodup) (by simpa using hlength) hvalues
  rw [Holds, List.forall₂_map_left_iff] at hholds
  have hresult := hrun _ integers 0 rfl hholds
  rw [run_value, hresult, layout.combine_eq slots hvalues.gives, map_map, map_map]
  rfl

theorem exists_replacement (name : String) :
    ∃ f, replacement name layout slots = .ok f ∧
      ∀ (target : Value) (t : Int) (values : List Value) (integers : List Int),
        slots.length = values.length → target.toInt? = some t → Stands values integers →
        f.run (target :: values) = (layout.replace slots target values).map single := by
  obtain ⟨steps, e, hcombine, hrun⟩ := exists_combine layout slots (some .target) hwidth
  refine ⟨_, by rw [replacement, hcombine]; rfl, ?_⟩
  intro target t values integers hlength ht hvalues
  have hstands : Stands (target :: values) (t :: integers) := List.Forall₂.cons ht hvalues
  have hholds := holds_ofArguments _ (nodup_target_letters slots hnodup) (by simpa using hlength)
    hstands
  cases hholds with
  | cons htarget hletters =>
  rw [List.forall₂_map_left_iff] at hletters
  have hresult := hrun _ integers (layout.keptOf t) ⟨by simp, t, htarget, rfl⟩ hletters
  rw [run_value, hresult, layout.replace_eq slots (index?_of_toInt? ht) hvalues.gives, map_map,
    map_map]
  rfl

end Storing

/-- The assignments of a transfer leave the fields of its inputs in their letters. -/
theorem exists_assigned (slots : List (Slot × Source))
    (hnodup : (slots.map fun pair => pair.1.name).Nodup) :
    ∃ assigned,
      slots.mapM (fun pair => do
        let field := pair.2.field
        let e ← extract field.templateWidth field (.input pair.2.index) none
        return Step.assign (.letter pair.1.name) e) = .ok assigned ∧
      ∀ (env : Env) (integers : List Int),
        (∀ pair ∈ slots, (env (.input pair.2.index)).toInt? =
          some (integers[pair.2.index]?.getD 0)) →
        ∃ env' : Env, assigned.foldlM Step.run env = .ok env' ∧
          (∀ pair ∈ slots, env' (.letter pair.1.name) =
            .int (pair.2.field.extract (integers[pair.2.index]?.getD 0))) ∧
          ∀ x, x ∉ slots.map (fun pair => Name.letter pair.1.name) → env' x = env x := by
  induction slots with
  | nil => exact ⟨[], rfl, fun env _ _ => ⟨env, rfl, by simp, fun _ _ => rfl⟩⟩
  | cons pair rest ih =>
    rw [List.map_cons, List.nodup_cons] at hnodup
    obtain ⟨assigned, hassigned, hrun⟩ := ih hnodup.2
    obtain ⟨e, he, heval⟩ := exists_extract_plain pair.2.field (.input pair.2.index)
    refine ⟨.assign (.letter pair.1.name) e :: assigned, ?_, ?_⟩
    · rw [mapM_cons, hassigned]
      simp only [he, ok_bind]
      rfl
    · intro env integers hinputs
      have hfirst := heval env _ (hinputs pair (List.mem_cons_self ..))
      have hstep : Step.run env (.assign (.letter pair.1.name) e) =
          .ok (env.set (.letter pair.1.name)
            (.int (pair.2.field.extract (integers[pair.2.index]?.getD 0)))) := by
        rw [Step.run, hfirst]
        rfl
      obtain ⟨env', hrest, hletters, hsame⟩ := hrun (env.set (.letter pair.1.name)
        (.int (pair.2.field.extract (integers[pair.2.index]?.getD 0)))) integers (by
          intro p hp
          simpa [Env.set] using hinputs p (List.mem_cons_of_mem _ hp))
      -- The letter of this slot is assigned once only.
      have hkeep : Name.letter pair.1.name ∉ rest.map fun p => Name.letter p.1.name := by
        intro hmem
        obtain ⟨p, hp, hname⟩ := List.mem_map.mp hmem
        exact hnodup.1 (List.mem_map.mpr ⟨p, hp, Name.letter.inj hname⟩)
      refine ⟨env', ?_, ?_, ?_⟩
      · rw [List.foldlM_cons, hstep, ok_bind]
        exact hrest
      · intro p hp
        rcases List.mem_cons.mp hp with rfl | hp
        · rw [hsame _ hkeep]
          simp [Env.set]
        · exact hletters p hp
      · intro x hx
        rw [List.map_cons, List.mem_cons, not_or] at hx
        rw [hsame x hx.2]
        simp [Env.set, hx.1]

/-- The parameter of an input holds the integer with its index. -/
theorem toInt?_input (env : Env) (inputs : Nat) (integers : List Int)
    (h : Holds env ((List.range inputs).map Name.input) integers) {i : Nat} (hi : i < inputs) :
    (env (.input i)).toInt? = some (integers[i]?.getD 0) := by
  rw [Holds, List.forall₂_map_left_iff, List.forall₂_iff_get] at h
  obtain ⟨hlength, hget⟩ := h
  rw [List.length_range] at hlength
  have hi' : i < integers.length := by omega
  have hvalue := hget i (by rwa [List.length_range]) hi'
  rw [List.getElem?_eq_getElem hi', Option.getD_some]
  simpa using hvalue

/-- What a transfer stores: the fields of its inputs in the order of its slots. -/
def transferred (slots : List (Slot × Source)) (integers : List Int) : List Int :=
  slots.map fun pair => pair.2.field.extract (integers[pair.2.index]?.getD 0)

theorem exists_transfer (name : String) (inputs : Nat) (output : Layout)
    (slots : List (Slot × Source))
    (hwidth : ∀ pair ∈ slots, pair.1.field.templateWidth = output.width)
    (hnodup : (slots.map fun pair => pair.1.name).Nodup)
    (hindex : ∀ pair ∈ slots, pair.2.index < inputs) :
    ∃ f, transfer name inputs output slots = .ok f ∧
      ∀ (values : List Value) (integers : List Int), values.length = inputs →
        Stands values integers →
        f.run values = (passAll (slots.map Prod.fst) (transferred slots integers)).map
          fun us => single (output.assemble 0 (slots.map Prod.fst) us) := by
  obtain ⟨assigned, hassigned, hassign⟩ := exists_assigned slots hnodup
  obtain ⟨steps, e, hcombine, hrun⟩ := exists_combine output (slots.map Prod.fst) none (by
    intro slot hslot
    obtain ⟨pair, hpair, rfl⟩ := List.mem_map.mp hslot
    exact hwidth pair hpair)
  refine ⟨_, by rw [transfer, hassigned, ok_bind, hcombine]; rfl, ?_⟩
  intro values integers hlength hvalues
  have hparams : ((List.range inputs).map Name.input).Nodup :=
    List.nodup_range.map fun a b h => Name.input.inj h
  have hholds := holds_ofArguments _ hparams (by simpa using hlength.symm) hvalues
  obtain ⟨env, hassignedRun, hletters, _⟩ := hassign _ integers
    fun pair hpair => toInt?_input _ inputs integers hholds (hindex pair hpair)
  rw [run_value, List.foldlM_append, hassignedRun, ok_bind]
  have hvalues' : List.Forall₂ (fun slot n => (env (.letter slot.name)).toInt? = some n)
      (slots.map Prod.fst) (transferred slots integers) := by
    rw [List.forall₂_map_left_iff, transferred, List.forall₂_map_right_iff, List.forall₂_same]
    intro pair hpair
    rw [hletters pair hpair]
    rfl
  rw [hrun env _ 0 rfl hvalues', map_map]
  rfl

end BitTemplate.Program

namespace BitTemplate

open Failure

/-- Moving the bits of a transfer directly lets the same values pass as its function. -/
theorem Transfer.interpret_eq (t : Transfer) {values : List Value} {integers : List Int}
    (h : Gives values integers) :
    t.interpret values =
      (passAll (t.slots.map Prod.fst) (Program.transferred t.slots integers)).map
        (t.output.assemble 0 (t.slots.map Prod.fst)) := by
  unfold Transfer.interpret
  rw [(mapM_integer_eq_ok_iff _ _).mpr h, ok_bind]
  apply Layout.combine_eq
  rw [Gives, Program.transferred, List.forall₂_map_left_iff, List.forall₂_map_right_iff,
    List.forall₂_same]
  intro pair _
  rfl

end BitTemplate
