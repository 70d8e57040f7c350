import BitTemplate.Proofs.Linking
import BitTemplate.Proofs.Strictness

/-!
The order in which the inputs of a transfer are listed. Generated code takes the fields of the
inputs in the order of the output, each from the parameter of its input, and moving bits directly
asks for all integers first. Either way only the value that stands beside a template matters for
its letters, and in inputs that share no letter there is one such value for each. So values and
input templates may be listed in any order, as long as they stay beside each other.
-/
namespace BitTemplate

open Failure

/-- The results of a list stand where their items do. -/
theorem Failure.getElem?_mapM {ε α β : Type} {f : α → Except ε β} {xs : List α} {ys : List β}
    (h : xs.mapM f = .ok ys) (i : Nat) (y : β) :
    ys[i]? = some y ↔ ∃ x, xs[i]? = some x ∧ f x = .ok y := by
  rw [mapM_eq_ok_iff] at h
  induction h generalizing i with
  | nil => simp
  | @cons x z xs ys hxz _ ih =>
    cases i with
    | zero =>
      simp only [List.getElem?_cons_zero, Option.some.injEq, exists_eq_left', hxz,
        Except.ok.injEq]
    | succ i => simpa using ih i

namespace Program

/-- Different parameters hold their own arguments, whatever these are. -/
theorem setAll_zip (env : Env) {params : List Name} (hnodup : params.Nodup) {values : List Value}
    (hlength : params.length = values.length) {i : Nat} {x : Name} (hx : params[i]? = some x) :
    setAll env (params.zip values) x = values[i]?.getD .none := by
  induction params generalizing env values i with
  | nil => simp at hx
  | cons y rest ih =>
    cases values with
    | nil => simp at hlength
    | cons v vs =>
      rw [List.nodup_cons] at hnodup
      change setAll (env.set y v) (rest.zip vs) x = _
      cases i with
      | zero =>
        have hxy : y = x := by simpa using hx
        subst hxy
        have hnot : y ∉ (rest.zip vs).map Prod.fst := by
          intro hy
          obtain ⟨pair, hpair, rfl⟩ := List.mem_map.mp hy
          exact hnodup.1 (List.of_mem_zip hpair).1
        rw [setAll_of_notMem _ _ _ hnot]
        simp [Env.set]
      | succ i =>
        rw [List.getElem?_cons_succ]
        exact ih _ hnodup.2 (by simpa using hlength) (by simpa using hx)

theorem ofArguments_input {inputs : Nat} {values : List Value} (hlength : values.length = inputs)
    {i : Nat} (hi : i < inputs) :
    Env.ofArguments ((List.range inputs).map Name.input) values (.input i) =
      values[i]?.getD .none := by
  have hnodup : ((List.range inputs).map Name.input).Nodup :=
    List.nodup_range.map fun a b h => Name.input.inj h
  exact setAll_zip Env.empty hnodup (by simpa using hlength.symm) (by simp [hi])

/-- What a transfer takes from any values: the fields of its slots in their order, up to the first
value that `read` refuses. -/
def fetch (read : Value → Except Error Int) (slots : List (Slot × Source)) (values : List Value) :
    Except Error (List Int) :=
  slots.mapM fun pair => (read (values[pair.2.index]?.getD .none)).map pair.2.field.extract

theorem fetch_cons (read : Value → Except Error Int) (pair : Slot × Source)
    (rest : List (Slot × Source)) (values : List Value) :
    fetch read (pair :: rest) values =
      ((read (values[pair.2.index]?.getD .none)).map pair.2.field.extract) >>= fun n =>
        (fetch read rest values).map fun ns => n :: ns :=
  mapM_cons _ _ _

/-- The assignments of a transfer fail as fetching does, or leave in the letters what is fetched and
everything else as it is. -/
theorem assigned_fetch {slots : List (Slot × Source)} {assigned : List Step}
    (hnodup : (slots.map fun pair => pair.1.name).Nodup)
    (hassigned : slots.mapM (fun pair => do
      let field := pair.2.field
      let e ← extract field.templateWidth field (.input pair.2.index) none
      return Step.assign (.letter pair.1.name) e) = .ok assigned)
    {env : Env} {values : List Value}
    (henv : ∀ pair ∈ slots, env (.input pair.2.index) = values[pair.2.index]?.getD .none) :
    (∃ err, fetch Value.operand slots values = .error err ∧
      assigned.foldlM Step.run env = .error err) ∨
      ∃ ns env', fetch Value.operand slots values = .ok ns ∧
        assigned.foldlM Step.run env = .ok env' ∧
        List.Forall₂ (fun pair n => env' (.letter pair.1.name) = .int n) slots ns ∧
        ∀ x, x ∉ slots.map (fun pair => Name.letter pair.1.name) → env' x = env x := by
  induction slots generalizing assigned env with
  | nil =>
    cases hassigned
    exact Or.inr ⟨[], env, rfl, rfl, .nil, fun _ _ => rfl⟩
  | cons pair rest ih =>
    rw [List.map_cons, List.nodup_cons] at hnodup
    rw [List.forall_mem_cons] at henv
    rw [mapM_cons, bind_eq_ok_iff] at hassigned
    obtain ⟨step, hstep, hrest⟩ := hassigned
    obtain ⟨others, hothers, rfl⟩ := (map_eq_ok_iff _ _ _).mp hrest
    obtain ⟨e, he, hassign⟩ := (bind_eq_ok_iff _ _ _).mp hstep
    cases hassign
    rw [fetch_cons, List.foldlM_cons, Step.run, ← henv.1]
    cases hv : (env (.input pair.2.index)).toInt? with
    | none =>
      refine Or.inl ⟨.wrongKind, ?_, ?_⟩
      · rw [operand_of_toInt?_eq_none hv]
        rfl
      · rw [Expr.eval_of_mem_names (source_mem_names_extract he) hv]
        rfl
    | some n =>
      obtain ⟨e', he', heval⟩ := exists_extract_plain pair.2.field (.input pair.2.index)
      rw [he] at he'
      cases he'
      rw [operand_eq_ok _ n hv, map_ok, ok_bind, heval env n hv]
      have hletter : Name.letter pair.1.name ∉ rest.map fun p => Name.letter p.1.name := by
        intro hmem
        obtain ⟨p, hp, hname⟩ := List.mem_map.mp hmem
        exact hnodup.1 (List.mem_map.mpr ⟨p, hp, Name.letter.inj hname⟩)
      -- Only a letter is assigned, so the inputs still hold their values.
      have hkept : ∀ p ∈ rest, env.set (.letter pair.1.name) (.int (pair.2.field.extract n))
          (.input p.2.index) = values[p.2.index]?.getD .none := by
        intro p hp
        simpa [Env.set] using henv.2 p hp
      rcases ih hnodup.2 hothers hkept with
        ⟨err, hfetch, hrun⟩ | ⟨ns, env', hfetch, hrun, hletters, hsame⟩
      · exact Or.inl ⟨err, by rw [hfetch, map_error], hrun⟩
      · refine Or.inr ⟨_ :: ns, env', by rw [hfetch, map_ok], hrun, .cons ?_ hletters, ?_⟩
        · rw [hsame _ hletter]
          simp [Env.set]
        · intro x hx
          rw [List.map_cons, List.mem_cons, not_or] at hx
          rw [hsame x hx.2]
          simp [Env.set, hx.1]

/-- The function of a transfer fetches the fields of any values, lets them pass and assembles
them. -/
theorem exists_transfer_fetch (name : String) (inputs : Nat) (output : Layout)
    (slots : List (Slot × Source))
    (hwidth : ∀ pair ∈ slots, pair.1.field.templateWidth = output.width)
    (hnodup : (slots.map fun pair => pair.1.name).Nodup)
    (hindex : ∀ pair ∈ slots, pair.2.index < inputs) :
    ∃ f, transfer name inputs output slots = .ok f ∧
      ∀ values : List Value, values.length = inputs →
        f.run values = fetch Value.operand slots values >>= fun ns =>
          (passAll (slots.map Prod.fst) ns).map
            fun us => single (output.assemble 0 (slots.map Prod.fst) us) := by
  obtain ⟨assigned, hassigned, _⟩ := exists_assigned slots hnodup
  obtain ⟨steps, e, hcombine, hrun⟩ := exists_combine output (slots.map Prod.fst) none (by
    intro slot hslot
    obtain ⟨pair, hpair, rfl⟩ := List.mem_map.mp hslot
    exact hwidth pair hpair)
  refine ⟨_, by rw [transfer, hassigned, ok_bind, hcombine]; rfl, ?_⟩
  intro values hlength
  rw [run_value, List.foldlM_append]
  have hinputs : ∀ pair ∈ slots,
      Env.ofArguments ((List.range inputs).map Name.input) values (.input pair.2.index) =
        values[pair.2.index]?.getD .none :=
    fun pair hpair => ofArguments_input hlength (hindex pair hpair)
  rcases assigned_fetch hnodup hassigned hinputs with
    ⟨err, hfetch, herror⟩ | ⟨ns, env, hfetch, hassignedRun, hletters, _⟩
  · rw [hfetch, herror]
    rfl
  · have hvalues : List.Forall₂ (fun slot n => (env (.letter slot.name)).toInt? = some n)
        (slots.map Prod.fst) ns := by
      rw [List.forall₂_map_left_iff]
      refine hletters.imp ?_
      intro pair n hn
      rw [hn]
      rfl
    rw [hfetch, hassignedRun, ok_bind, ok_bind, hrun env ns 0 rfl hvalues, map_map]
    rfl

end Program

namespace Executor

/-- What an engine asks of the values before it looks at any field: moving bits directly takes all
of them for integers, and generated code takes each value when it is used. -/
def demand : Executor → List Value → Except Error Unit
  | .compiled _, _ => .ok ()
  | .interpreted, values => (values.mapM Value.integer).map fun _ => ()

/-- How an engine reads the value that a field is taken from. -/
def reading : Executor → Value → Except Error Int
  | .compiled _ => Value.operand
  | .interpreted => Value.integer

theorem reading_congr {x y : Executor} (h : x.engine = y.engine) : x.reading = y.reading := by
  cases x <;> cases y <;> first | rfl | cases h

theorem engine_of_prepare {engine : Engine} {code : Except Error Program.Function} {x : Executor}
    (h : prepare engine code = .ok x) : x.engine = engine := by
  cases engine with
  | compiled =>
    obtain ⟨f, _, rfl⟩ := (map_eq_ok_iff _ _ _).mp h
    rfl
  | interpreted =>
    cases h
    rfl

end Executor

theorem mapM_integer_eq_error {values : List Value}
    (h : ¬ ∀ v ∈ values, ∃ n, v.integer = .ok n) :
    values.mapM Value.integer = .error .wrongKind := by
  cases hintegers : values.mapM Value.integer with
  | ok integers => exact absurd (fun v hv => exists_of_mapM hintegers hv) h
  | error e =>
    obtain ⟨_, v, _, _, _, hv⟩ := (mapM_eq_error_iff _ _ _).mp hintegers
    rw [integer_eq_error hv]

/-- Engines of one kind ask the same of values in any order. -/
theorem Executor.demand_perm {x y : Executor} (hengine : x.engine = y.engine)
    {values values' : List Value} (hperm : values.Perm values') :
    x.demand values = y.demand values' := by
  cases x with
  | compiled f =>
    cases y with
    | compiled g => rfl
    | interpreted => cases hengine
  | interpreted =>
    cases y with
    | compiled g => cases hengine
    | interpreted =>
      have hsame : (∀ v ∈ values, ∃ n, v.integer = .ok n) ↔
          ∀ v ∈ values', ∃ n, v.integer = .ok n := by
        simp only [hperm.mem_iff]
      change (values.mapM Value.integer).map _ = (values'.mapM Value.integer).map _
      by_cases h : ∀ v ∈ values, ∃ n, v.integer = .ok n
      · obtain ⟨ns, hns⟩ := exists_mapM h
        obtain ⟨ms, hms⟩ := exists_mapM (hsame.mp h)
        rw [hns, hms]
        rfl
      · rw [mapM_integer_eq_error h, mapM_integer_eq_error (mt hsame.mpr h)]

namespace Transfer

open Program (single transferred fetch)

/-- Let fetched integers pass and assemble them. -/
def store (t : Transfer) (ns : List Int) : Except Error Outcome :=
  (passAll (t.slots.map Prod.fst) ns).map
    fun us => single (t.output.assemble 0 (t.slots.map Prod.fst) us)

theorem fetch_of_mapM {read : Value → Except Error Int} {slots : List (Slot × Program.Source)}
    {values : List Value} {integers : List Int} (h : values.mapM read = .ok integers)
    (hindex : ∀ pair ∈ slots, pair.2.index < values.length) :
    fetch read slots values = .ok (transferred slots integers) := by
  rw [fetch, mapM_eq_ok_iff, transferred, List.forall₂_map_right_iff, List.forall₂_same]
  intro pair hpair
  have hlt := hindex pair hpair
  obtain ⟨hlength, hget⟩ := List.forall₂_iff_get.mp ((mapM_eq_ok_iff _ _ _).mp h)
  have hlt' : pair.2.index < integers.length := hlength ▸ hlt
  have hvalue : read values[pair.2.index] = .ok integers[pair.2.index] :=
    hget pair.2.index hlt hlt'
  rw [List.getElem?_eq_getElem hlt, List.getElem?_eq_getElem hlt', Option.getD_some,
    Option.getD_some, hvalue]
  rfl

/-- What a transfer does with any values, one for each input. -/
theorem run_eq_fetch {s : Settings} {fallback : Option String} {t : Transfer}
    (h : make s fallback = .ok t) {values : List Value}
    (hlength : values.length = t.inputs.length) :
    t.run values = t.executor.demand values >>= fun _ =>
      fetch t.executor.reading t.slots values >>= t.store := by
  obtain ⟨hwidth, hnodup, hindex⟩ := slots_of_make h
  obtain ⟨f, hf, hexecutor, _, _⟩ := make_engines h
  rw [run, if_neg (by simpa using hlength)]
  rcases hexecutor with hx | hx
  · obtain ⟨g, hg, hrun⟩ := Program.exists_transfer_fetch "run" t.inputs.length t.output t.slots
      hwidth hnodup hindex
    rw [hf] at hg
    cases hg
    rw [hx]
    exact hrun values hlength
  · rw [hx, Executor.demand, Executor.reading]
    cases hintegers : values.mapM Value.integer with
    | ok integers =>
      rw [fetch_of_mapM hintegers fun pair hpair => hlength ▸ hindex pair hpair]
      change (t.interpret values).map single = _
      rw [t.interpret_eq ((mapM_integer_eq_ok_iff _ _).mp hintegers), map_map]
      rfl
    | error e => simp [interpret, hintegers]

theorem fetch_congr {read : Value → Except Error Int}
    {slots slots' : List (Slot × Program.Source)} {values values' : List Value}
    (h : List.Forall₂ (fun pair pair' => pair.2.field = pair'.2.field ∧
      values[pair.2.index]? = values'[pair'.2.index]?) slots slots') :
    fetch read slots values = fetch read slots' values' := by
  induction h with
  | nil => rfl
  | cons hfirst _ ih => rw [Program.fetch_cons, Program.fetch_cons, hfirst.1, hfirst.2, ih]

/-- A letter of inputs that share none stands in one of them only. -/
theorem index_unique {inputs : List Layout} (h : ¬ Clashing inputs) {a : Letter} {i j : Nat}
    {l m : Layout} (hl : inputs[i]? = some l) (hm : inputs[j]? = some m) (hal : a ∈ l.names)
    (ham : a ∈ m.names) : i = j := by
  rcases Nat.lt_trichotomy i j with hij | hij | hij
  · exact absurd ⟨a, i, j, l, m, hij, hl, hm, hal, ham⟩ h
  · exact hij
  · exact absurd ⟨a, j, i, m, l, hij, hm, hl, ham, hal⟩ h

theorem not_clashing_of_gather {inputs : List Layout} {sources : List Program.Source}
    (h : gather 0 [] inputs = .ok sources) : ¬ Clashing inputs := by
  intro hclash
  obtain ⟨a, i, j, hfirst⟩ := exists_firstClash hclash
  obtain ⟨l, _, hgather⟩ := gather_of_firstClash hfirst
  rw [hgather] at h
  cases h

section Reordered

variable {base : Value} {rows rows' : List (Value × Value)} (hrows : rows'.Perm rows)
  {inputs inputs' : List Layout}
  (hinputs : (rows.map Prod.snd).mapM (readInput base) = .ok inputs)
  (hinputs' : (rows'.map Prod.snd).mapM (readInput base) = .ok inputs')

include hrows hinputs hinputs'

/-- If the values and their input templates are listed in another order, a letter is still taken
from the same field of the same value. -/
theorem source_reordered (hclash : ¬ Clashing inputs) {a : Letter}
    {source source' : Program.Source}
    (hsource : source.field.name = a ∧ ∃ l, inputs[source.index]? = some l ∧
      source.field ∈ l.fields)
    (hsource' : source'.field.name = a ∧ ∃ l, inputs'[source'.index]? = some l ∧
      source'.field ∈ l.fields) :
    source.field = source'.field ∧
      (rows.map Prod.fst)[source.index]? = (rows'.map Prod.fst)[source'.index]? := by
  obtain ⟨hname, l, hl, hfield⟩ := hsource
  obtain ⟨hname', l', hl', hfield'⟩ := hsource'
  obtain ⟨v', hv', hread'⟩ := (getElem?_mapM hinputs' _ _).mp hl'
  rw [List.getElem?_map, Option.map_eq_some_iff] at hv'
  obtain ⟨row, hrow, rfl⟩ := hv'
  -- The row with the letter stands somewhere in the other order too, and there is only one.
  obtain ⟨k, hk⟩ := List.mem_iff_getElem?.mp (hrows.mem_iff.mp (List.mem_of_getElem? hrow))
  have hlk : inputs[k]? = some l' :=
    (getElem?_mapM hinputs _ _).mpr ⟨row.2, by rw [List.getElem?_map, hk]; rfl, hread'⟩
  have hal : a ∈ l.names := hname ▸ List.mem_map_of_mem (f := Field.name) hfield
  have hal' : a ∈ l'.names := hname' ▸ List.mem_map_of_mem (f := Field.name) hfield'
  have hindex : source.index = k := index_unique hclash hl hlk hal hal'
  have hsame : l = l' := by
    rw [hindex, hlk] at hl
    exact (Option.some.inj hl).symm
  subst hsame
  refine ⟨List.inj_on_of_nodup_map l.nodup_names hfield hfield' (hname.trans hname'.symm), ?_⟩
  rw [List.getElem?_map, List.getElem?_map, hindex, hk, hrow]

end Reordered

/-- Slots that are linked to reordered inputs store the same fields of the same values. -/
theorem slots_reordered {base : Value} {rows rows' : List (Value × Value)}
    (hrows : rows'.Perm rows) {inputs inputs' : List Layout}
    (hinputs : (rows.map Prod.snd).mapM (readInput base) = .ok inputs)
    (hinputs' : (rows'.map Prod.snd).mapM (readInput base) = .ok inputs')
    {sources sources' : List Program.Source} (hsources : gather 0 [] inputs = .ok sources)
    (hsources' : gather 0 [] inputs' = .ok sources') {output : Layout} {policy : Overflow}
    {slots slots' : List (Slot × Program.Source)}
    (hslots : output.fields.mapM (link output sources policy) = .ok slots)
    (hslots' : output.fields.mapM (link output sources' policy) = .ok slots') :
    List.Forall₂ (fun pair pair' => pair.1 = pair'.1 ∧ pair.2.field = pair'.2.field ∧
      (rows.map Prod.fst)[pair.2.index]? = (rows'.map Prod.fst)[pair'.2.index]?) slots slots' := by
  rw [mapM_eq_ok_iff] at hslots hslots'
  generalize output.fields = fields at hslots hslots'
  induction hslots generalizing slots' with
  | nil =>
    cases hslots'
    exact .nil
  | cons hpair _ ih =>
    cases hslots' with
    | cons hpair' hrest' =>
      obtain ⟨hslot, hsource⟩ := link_eq_ok hpair
      obtain ⟨hslot', hsource'⟩ := link_eq_ok hpair'
      obtain ⟨hfield, hvalue⟩ := source_reordered hrows hinputs hinputs'
        (not_clashing_of_gather hsources) (field_of_source hsources hsource)
        (field_of_source hsources' hsource')
      refine .cons ⟨?_, hfield, hvalue⟩ (ih hrest')
      rw [hslot, hslot', hfield]

theorem length_of_rows {s : Settings} {fallback : Option String} {rows : List (Value × Value)}
    {t : Transfer} (h : make { s with inputs := .list (rows.map Prod.snd) } fallback = .ok t) :
    (rows.map Prod.fst).length = t.inputs.length := by
  obtain ⟨_, _, _, _, _, _, hvalues, hinputs, _⟩ := (make_eq_ok_iff _ _ t).mp h
  cases hvalues
  rw [← ((mapM_eq_ok_iff _ _ _).mp hinputs).length_eq, List.length_map, List.length_map]

section Orders

variable {s : Settings} {fallback : Option String} {rows rows' : List (Value × Value)}
  (hrows : rows'.Perm rows)

include hrows

theorem run_reordered {t t' : Transfer}
    (ht : make { s with inputs := .list (rows.map Prod.snd) } fallback = .ok t)
    (ht' : make { s with inputs := .list (rows'.map Prod.snd) } fallback = .ok t') :
    t.run (rows.map Prod.fst) = t'.run (rows'.map Prod.fst) := by
  obtain ⟨engine, _, template, sources, policy, hengine, hvalues, hinputs, _, htemplate, _,
    houtput, hsources, hpolicy, hslots, hexecutor⟩ := (make_eq_ok_iff _ _ t).mp ht
  obtain ⟨engine', _, template', sources', policy', hengine', hvalues', hinputs', _, htemplate', _,
    houtput', hsources', hpolicy', hslots', hexecutor'⟩ := (make_eq_ok_iff _ _ t').mp ht'
  cases hvalues
  cases hvalues'
  cases hengine.symm.trans hengine'
  cases htemplate.symm.trans htemplate'
  cases hpolicy.symm.trans hpolicy'
  have hsameOutput : t.output = t'.output := houtput.trans houtput'.symm
  rw [← hsameOutput] at hslots'
  have hparallel := slots_reordered hrows hinputs hinputs' hsources hsources' hslots hslots'
  have hsameSlots : t.slots.map Prod.fst = t'.slots.map Prod.fst := by
    rw [← List.forall₂_eq_eq_eq, List.forall₂_map_left_iff, List.forall₂_map_right_iff]
    exact hparallel.imp fun _ _ h => h.1
  have hstore : t.store = t'.store := by
    funext ns
    rw [store, store, hsameSlots, hsameOutput]
  have hsameEngine : t.executor.engine = t'.executor.engine := by
    rw [Executor.engine_of_prepare hexecutor, Executor.engine_of_prepare hexecutor']
  rw [run_eq_fetch ht (length_of_rows ht), run_eq_fetch ht' (length_of_rows ht'), hstore,
    Executor.demand_perm hsameEngine (hrows.symm.map Prod.fst),
    Executor.reading_congr hsameEngine,
    fetch_congr (hparallel.imp fun _ _ h => h.2)]

theorem exists_make_reordered {t : Transfer}
    (ht : make { s with inputs := .list (rows.map Prod.snd) } fallback = .ok t) :
    ∃ t', make { s with inputs := .list (rows'.map Prod.snd) } fallback = .ok t' := by
  obtain ⟨engine, output, policy, hreads, _⟩ := reads_of_make ht
  obtain ⟨hclash, hproduced⟩ := hreads.verdict.made_iff.mp ⟨t, ht⟩
  obtain ⟨_, hvalues, hinputs⟩ := hreads.read_inputs
  cases hvalues
  obtain ⟨inputs', hinputs', hperm⟩ := List.perm_comp_forall₂ (hrows.map Prod.snd) hinputs
  have hnonempty : inputs' ≠ [] := by
    rintro rfl
    exact hreads.nonempty hperm.nil_eq.symm
  have hreads' : Settings.Reads { s with inputs := .list (rows'.map Prod.snd) } fallback engine
      inputs' output policy :=
    ⟨hreads.known_engine, ⟨_, rfl, hinputs'⟩, hnonempty, hreads.read_output, hreads.filled,
      hreads.known_policy⟩
  refine hreads'.exists_make ?_ ?_
  · rw [not_clashing_iff_pairwise] at hclash ⊢
    exact (hperm.pairwise_iff fun h => h.symm).mpr hclash
  · intro a ha
    obtain ⟨l, hl, hal⟩ := hproduced a ha
    exact ⟨l, hperm.mem_iff.mpr hl, hal⟩

end Orders

/-- On integers a transfer returns a result or reports a field that is too wide for its slot. -/
theorem run_settled {s : Settings} {fallback : Option String} {t : Transfer}
    (h : make s fallback = .ok t) {values : List Value} (hlength : values.length = t.inputs.length)
    (hvalues : Integral values) :
    (∃ o, t.run values = .ok o) ∨
      ∃ name value width, t.run values = .error (.excess name value width) := by
  obtain ⟨integers, hstands⟩ := hvalues.exists_stands
  rw [run_of_make h hlength hstands]
  rcases passAll_cases (t.slots.map Prod.fst) (transferred t.slots integers) with
    ⟨us, hus⟩ | ⟨name, value, width, herror⟩
  · exact Or.inl ⟨_, by rw [hus, map_ok]⟩
  · exact Or.inr ⟨name, value, width, by rw [herror, map_error]⟩

/-- Transfers are made exactly of templates whose letters can be linked, whatever their order. With
accepted templates and settings, the first letter that two inputs share is reported, or else the
first letter of the output that no input has, or else the transfer is made. If the pairs of a value
and an input template are listed in another order, the transfer is made exactly if it was before,
and it answers every list of values in the same way. -/
theorem made_of_linked_letters :
    (∀ (s : Settings) fallback engine inputs output policy,
      s.Reads fallback engine inputs output policy → Verdict inputs output (make s fallback)) ∧
    ∀ (s : Settings) fallback (rows rows' : List (Value × Value)), rows'.Perm rows →
      ((∃ t, make { s with inputs := .list (rows'.map Prod.snd) } fallback = .ok t) ↔
        ∃ t, make { s with inputs := .list (rows.map Prod.snd) } fallback = .ok t) ∧
      ∀ t t', make { s with inputs := .list (rows.map Prod.snd) } fallback = .ok t →
        make { s with inputs := .list (rows'.map Prod.snd) } fallback = .ok t' →
        t'.run (rows'.map Prod.fst) = t.run (rows.map Prod.fst) ∧
        (Integral (rows.map Prod.fst) → (∃ o, t.run (rows.map Prod.fst) = .ok o) ∨
          ∃ name value width, t.run (rows.map Prod.fst) = .error (.excess name value width)) := by
  refine ⟨fun s fallback engine inputs output policy h => h.verdict, ?_⟩
  intro s fallback rows rows' hrows
  constructor
  · constructor
    · intro ⟨t, ht⟩
      exact exists_make_reordered hrows.symm ht
    · intro ⟨t, ht⟩
      exact exists_make_reordered hrows ht
  · intro t t' ht ht'
    refine ⟨(run_reordered hrows ht ht').symm, run_settled ht ?_⟩
    exact length_of_rows ht

/-- Two inputs share two letters, of which the second is met again first. Without the clash, three
inputs may be listed in reverse. -/
theorem made_of_linked_letters_reversed :
    (∃ d, make ⟨.list [.text "aab.....", .text "..ccbd.a"], .text "aabbccdd", .base .binary,
        .overflow .panic, .none⟩ none = .error (.diagnostic d) ∧
      d.fault = .duplicateField ⟨'b', by decide⟩ 0 1) ∧
    ∃ t t', make ⟨.list [.text "aab.....", .text "..cc.d..", .text "eeeeeeee"], .text "aabccdee",
        .base .binary, .overflow .panic, .none⟩ none = .ok t ∧
      make ⟨.list [.text "eeeeeeee", .text "..cc.d..", .text "aab....."], .text "aabccdee",
        .base .binary, .overflow .panic, .none⟩ none = .ok t' ∧
      t'.run [.int 255, .int 9, .bool true] = t.run [.bool true, .int 9, .int 255] := by
  obtain ⟨hverdict, hreorder⟩ := made_of_linked_letters
  constructor
  · obtain ⟨a, c, d, h₁, h₂⟩ : ∃ a c d : Letter,
        (Template.ofValue (.text "aab.....") (.base .binary)).map (fun t =>
          (t.names, t.cells.all fun cell => !cell.isLiteral)) =
            .ok ([a, ⟨'b', by decide⟩], true) ∧
        (Template.ofValue (.text "..ccbd.a") (.base .binary)).map (fun t =>
          (t.names, t.cells.all fun cell => !cell.isLiteral)) =
            .ok ([c, ⟨'b', by decide⟩, d, a], true) :=
      ⟨⟨'a', by decide⟩, ⟨'c', by decide⟩, ⟨'d', by decide⟩, by rfl, by rfl⟩
    have h₃ : (Template.ofValue (.text "aabbccdd") (.base .binary)).map (fun t =>
        t.cells.all fun cell => !cell.isPlaceholder) = .ok true := by rfl
    rw [map_eq_ok_iff] at h₁ h₂ h₃
    obtain ⟨t₁, h₁, hfacts₁⟩ := h₁
    obtain ⟨t₂, h₂, hfacts₂⟩ := h₂
    obtain ⟨t₃, h₃, hfacts₃⟩ := h₃
    simp only [Prod.mk.injEq, List.all_eq_true, Bool.not_eq_true'] at hfacts₁ hfacts₂ hfacts₃
    have hreads : Settings.Reads ⟨.list [.text "aab.....", .text "..ccbd.a"], .text "aabbccdd",
        .base .binary, .overflow .panic, .none⟩ none .compiled [⟨t₁⟩, ⟨t₂⟩] t₃ .panic :=
      ⟨rfl, ⟨_, rfl, .cons ⟨h₁, hfacts₁.2⟩ (.cons ⟨h₂, hfacts₂.2⟩ .nil)⟩, by simp, h₃, hfacts₃, rfl⟩
    have hfirst : FirstClash [⟨t₁⟩, ⟨t₂⟩] ⟨'b', by decide⟩ 0 1 := by
      refine ⟨[(a, 0), (⟨'b', by decide⟩, 0), (c, 1)], [(d, 1), (a, 1)], ?_, ?_, by simp⟩
      · simp [lettersFrom, Layout.names_eq, hfacts₁.1, hfacts₂.1]
      · have hletters₁ := t₁.nodup_names
        have hletters₂ := t₂.nodup_names
        rw [hfacts₁.1] at hletters₁
        rw [hfacts₂.1] at hletters₂
        grind
    obtain ⟨l, _, hmake⟩ := ((hverdict _ _ _ _ _ _ hreads).first_duplicate_iff _ _ _).mp hfirst
    exact ⟨_, hmake, rfl⟩
  · have hmake : (make ⟨.list [.text "aab.....", .text "..cc.d..", .text "eeeeeeee"],
        .text "aabccdee", .base .binary, .overflow .panic, .none⟩ none).map
          (fun t => t.inputs.length) = .ok 3 := by rfl
    obtain ⟨t, ht, _⟩ := (map_eq_ok_iff _ _ _).mp hmake
    obtain ⟨hiff, hrun⟩ := hreorder
      ⟨.none, .text "aabccdee", .base .binary, .overflow .panic, .none⟩ none
      [(.bool true, .text "aab....."), (.int 9, .text "..cc.d.."), (.int 255, .text "eeeeeeee")] _
      (List.reverse_perm _)
    obtain ⟨t', ht'⟩ := hiff.mpr ⟨t, ht⟩
    exact ⟨t, t', ht, ht', (hrun t t' ht ht').1⟩

end Transfer

end BitTemplate
