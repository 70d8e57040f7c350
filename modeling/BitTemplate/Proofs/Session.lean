import BitTemplate.Proofs.Construction
import BitTemplate.Session.Basic

/-!
Operations that are kept for later calls do not show in the results. Every kept operation is the
one that its key makes, whatever was asked before, what was dropped and what failed, so a call
gives what it gives alone. Alone it gives what an operation gives that is made for it: the key
holds all that the operation depends on. The one difference is in what is reported of a call with
several faults, since the settings of a call are checked before its templates are read.
-/
namespace BitTemplate

open Failure

namespace Cache

variable {κ α ε : Type} {make : κ → Except ε α} {c : Cache κ α}

/-- Every entry is what its key makes. -/
def Sound (make : κ → Except ε α) (c : Cache κ α) : Prop :=
  ∀ entry ∈ c.entries, make entry.1 = .ok entry.2

theorem sound_empty (make : κ → Except ε α) : ({} : Cache κ α).Sound make := by
  intro entry hentry
  cases hentry

theorem Sound.cons (h : c.Sound make) {key : κ} {item : α} (hmake : make key = .ok item)
    {kept : List (κ × α)} (hkept : ∀ entry ∈ kept, entry ∈ c.entries) (hits misses : Nat) :
    (⟨(key, item) :: kept, hits, misses⟩ : Cache κ α).Sound make := by
  intro entry hentry
  rcases List.mem_cons.mp hentry with hfirst | hlater
  · rw [hfirst]
    exact hmake
  · exact h entry (hkept entry hlater)

variable [DecidableEq κ]

theorem Sound.make_of_get? (h : c.Sound make) {key : κ} {item : α} (hget : c.get? key = some item) :
    make key = .ok item := by
  obtain ⟨before, after, hentries, _⟩ := List.lookup_eq_some_iff.mp hget
  exact h (key, item) (by rw [hentries]; simp)

theorem Sound.fetch_item (h : c.Sound make) (key : κ) : (c.fetch key make).1.item = make key := by
  unfold fetch
  cases hget : c.get? key with
  | some item => exact (h.make_of_get? hget).symm
  | none => cases make key <;> rfl

/-- Asking for an entry moves it, adds it, drops another one for it or changes nothing. -/
theorem Sound.fetch (h : c.Sound make) (key : κ) : (c.fetch key make).2.Sound make := by
  unfold Cache.fetch
  cases hget : c.get? key with
  | some item =>
    exact h.cons (h.make_of_get? hget) (fun entry hentry => List.mem_of_mem_filter hentry) _ _
  | none =>
    cases hmake : make key with
    | ok item => exact h.cons hmake (fun entry hentry => List.mem_of_mem_take hentry) _ _
    | error e => exact h

end Cache

namespace Request

/-- What a call gives if nothing was kept for it. -/
def alone (caller : Caller) : Request → Except Error Outcome
  | .extract form base precision value template minimum => do
    let key ← ExtractionKey.read template minimum base precision form.named caller.engine
    form.apply (← key.make) value
  | .combine base template values keywords overflow => do
    let key ← StorageKey.read template overflow base caller.engine
    (← key.makeCombination).callFrom caller.scope values keywords
  | .replace base target template values keywords overflow => do
    let key ← StorageKey.read template overflow base caller.engine
    (← key.makeReplacement).callFrom caller.scope target values keywords
  | .transfer base arguments overflow =>
    match Transfer.pairUp arguments with
    | none => .error (.unpaired (Transfer.callName base) arguments.length)
    | some (values, inputs, output) => do
      let key ← TransferKey.read inputs output overflow base caller.engine
      (← key.make).run values

end Request

namespace Session

/-- Every kept operation is the one that its key makes. -/
structure Sound (s : Session) : Prop where
  extractions : s.extractions.Sound ExtractionKey.make
  combinations : s.combinations.Sound StorageKey.makeCombination
  replacements : s.replacements.Sound StorageKey.makeReplacement
  transfers : s.transfers.Sound TransferKey.make

theorem sound_empty : ({} : Session).Sound :=
  ⟨Cache.sound_empty _, Cache.sound_empty _, Cache.sound_empty _, Cache.sound_empty _⟩

variable {s : Session}

/-- A call gives what it gives alone, and leaves only sound entries. -/
theorem Sound.step (h : s.Sound) (caller : Caller) (request : Request) :
    (s.step caller request).1.result = request.alone caller ∧
      (s.step caller request).2.Sound := by
  cases request with
  | extract form base precision value template minimum =>
    rw [Session.step, Session.extract, Request.alone]
    cases ExtractionKey.read template minimum base precision form.named caller.engine with
    | error e => exact ⟨rfl, h⟩
    | ok key =>
      refine ⟨?_, { h with extractions := h.extractions.fetch key }⟩
      exact congrArg (· >>= fun x => form.apply x value) (h.extractions.fetch_item key)
  | combine base template values keywords overflow =>
    rw [Session.step, Session.combine, Request.alone]
    cases StorageKey.read template overflow base caller.engine with
    | error e => exact ⟨rfl, h⟩
    | ok key =>
      refine ⟨?_, { h with combinations := h.combinations.fetch key }⟩
      exact congrArg (· >>= fun c => c.callFrom caller.scope values keywords)
        (h.combinations.fetch_item key)
  | replace base target template values keywords overflow =>
    rw [Session.step, Session.replace, Request.alone]
    cases StorageKey.read template overflow base caller.engine with
    | error e => exact ⟨rfl, h⟩
    | ok key =>
      refine ⟨?_, { h with replacements := h.replacements.fetch key }⟩
      exact congrArg (· >>= fun r => r.callFrom caller.scope target values keywords)
        (h.replacements.fetch_item key)
  | transfer base arguments overflow =>
    rw [Session.step, Session.transfer, Request.alone]
    cases Transfer.pairUp arguments with
    | none => exact ⟨rfl, h⟩
    | some parts =>
      obtain ⟨values, inputs, output⟩ := parts
      simp only
      cases TransferKey.read inputs output overflow base caller.engine with
      | error e => exact ⟨rfl, h⟩
      | ok key =>
        refine ⟨?_, { h with transfers := h.transfers.fetch key }⟩
        exact congrArg (· >>= fun t => t.run values) (h.transfers.fetch_item key)

theorem Sound.run (h : s.Sound) (steps : List (Caller × Request)) :
    (s.run steps).map Reply.result = steps.map fun step => step.2.alone step.1 := by
  induction steps generalizing s with
  | nil => rfl
  | cons step rest ih =>
    obtain ⟨hresult, hsound⟩ := h.step step.1 step.2
    rw [List.map_cons, ← hresult, ← ih hsound]
    rfl

end Session

/-- A template argument that is what its own text writes in its base. -/
def Value.Faithful : Value → Prop
  | .template t => Template.ofText (.text t.text) (.base t.base) = .ok t
  | _ => True

theorem Template.written_of_parse {text : String} {base : Base} {t : Template}
    (h : parse text base = .ok t) : t.text = text ∧ t.base = base := by
  unfold parse at h
  split at h
  · cases h
  · split at h
    · cases h
      exact ⟨rfl, rfl⟩
    · cases h

/-- Every template that was read is what its text writes. -/
theorem Template.faithful_of_ofText {v base : Value} {t : Template} (h : ofText v base = .ok t) :
    (Value.template t).Faithful := by
  cases v with
  | text text =>
    rw [ofText] at h
    cases hbase : Base.ofValue base with
    | error e =>
      rw [hbase] at h
      cases h
    | ok b =>
      rw [hbase] at h
      obtain ⟨htext, hb⟩ := written_of_parse ((mapError_eq_ok_iff _ _ _).mp h)
      change (parse t.text t.base).mapError Error.diagnostic = .ok t
      rw [htext, hb]
      exact h
  | _ => cases h

namespace Template

variable {v : Value} {base : Base}

theorem ofValue_of_keyText_error {e : Error} (h : keyText v base = .error e) :
    ofValue v (.base base) = .error e := by
  cases v with
  | template t => exact (map_eq_error_iff _ _ _).mp h
  | text s => cases h
  | _ =>
    cases h
    rfl

theorem exists_keyText {t : Template} (h : ofValue v (.base base) = .ok t) :
    ∃ text, keyText v base = .ok text := by
  cases hkey : keyText v base with
  | error e =>
    rw [ofValue_of_keyText_error hkey] at h
    cases h
  | ok text => exact ⟨text, rfl⟩

theorem ofValue_template {t : Template} (h : t.base = base) :
    ofValue (.template t) (.base base) = .ok t := if_pos h

/-- The text of a key stands for its template. -/
theorem ofValue_of_keyText {text : String} (hv : v.Faithful) (h : keyText v base = .ok text) :
    ofValue (.text text) (.base base) = ofValue v (.base base) := by
  cases v with
  | template t =>
    rw [keyText] at h
    by_cases hbase : t.base = base
    · rw [ofValue_template hbase] at h ⊢
      cases h
      rw [← hbase]
      exact hv
    · have hother : ofValue (.template t) (.base base) =
          .error (.wrongBase t.text t.base base) := if_neg hbase
      rw [hother] at h
      cases h
  | text s =>
    cases h
    rfl
  | _ => cases h

end Template

namespace Engine

theorem select_name (engine : Engine) (fallback : Option String) :
    select (.text engine.name) fallback = .ok engine := by
  cases engine <;> rfl

end Engine

namespace Shape

theorem isStandard_of_least {minimum : Value} {shape : Shape}
    (h : least minimum (.precision .standard) = .ok (some shape)) : shape.isStandard = true := by
  unfold least at h
  split at h
  · cases h
  · split at h
    · cases h
    · rename_i found hfound
      simp only [Precision.ofValue] at h
      split at h
      · cases h
        assumption
      · cases h

/-- A least shape that was accepted is accepted again. -/
theorem least_of_least {minimum : Value} {precision : Precision} {found : Option Shape}
    (h : least minimum (.precision precision) = .ok found) :
    least ((found.map Value.shape).getD .none) (.precision precision) = .ok found := by
  cases found with
  | none => rfl
  | some shape =>
    cases precision with
    | exact => rfl
    | standard =>
      change (if shape.isStandard = true then Except.ok (some shape)
        else .error (Error.minimumNotStandard shape)) = .ok (some shape)
      rw [if_pos (isStandard_of_least h)]

end Shape

namespace Request

/-- What an operation gives that is made for a call. -/
def fresh (caller : Caller) : Request → Except Error Outcome
  | .extract form base precision value template minimum => do
    let x ← Extraction.make
      ⟨template, .base base, .precision precision, minimum, .bool form.named, .none⟩ caller.engine
    form.apply x value
  | .combine base template values keywords overflow => do
    let c ← Combination.make ⟨template, .base base, overflow, .none, .none⟩ caller.engine
    c.callFrom caller.scope values keywords
  | .replace base target template values keywords overflow => do
    let r ← Replacement.make ⟨template, .base base, overflow, .none, .none⟩ caller.engine
    r.callFrom caller.scope target values keywords
  | .transfer base arguments overflow =>
    match Transfer.pairUp arguments with
    | none => .error (.unpaired (Transfer.callName base) arguments.length)
    | some (values, inputs, output) => do
      let t ← Transfer.make ⟨.list inputs, output, .base base, overflow, .none⟩ caller.engine
      t.run values

/-- The arguments of a call that are templates. -/
def templates : Request → List Value
  | .extract _ _ _ _ template _ => [template]
  | .combine _ template _ _ _ => [template]
  | .replace _ _ template _ _ _ => [template]
  | .transfer _ arguments _ =>
    match Transfer.pairUp arguments with
    | none => []
    | some (_, inputs, output) => inputs ++ [output]

/-- What is wrong with a call: the errors of its engine, its templates and its settings, each
taken by itself. -/
def faults (caller : Caller) : Request → List Error
  | .extract _ base precision _ template minimum =>
    errors (Engine.select .none caller.engine) ++
      errors (Template.ofValue template (.base base) >>= fun t =>
        (t.forbidLiterals "an extraction template" "").mapError .diagnostic) ++
      errors (Shape.least minimum (.precision precision))
  | .combine base template _ _ overflow =>
    errors (Engine.select .none caller.engine) ++
      errors (Template.ofValue template (.base base) >>= fun t =>
        (t.forbidPlaceholders "a combination template" "; use literals instead").mapError
          .diagnostic) ++
      errors (Overflow.ofValue overflow)
  | .replace base _ template _ _ overflow =>
    errors (Engine.select .none caller.engine) ++
      errors (Template.ofValue template (.base base)) ++ errors (Overflow.ofValue overflow)
  | .transfer base arguments overflow =>
    match Transfer.pairUp arguments with
    | none => []
    | some (_, inputs, output) =>
      errors (Engine.select .none caller.engine) ++
        inputs.flatMap (fun v => errors (Transfer.readInput (.base base) v)) ++
        errors (Template.ofValue output (.base base) >>= fun t =>
          (t.forbidPlaceholders "an output template" "; use literals instead").mapError
            .diagnostic) ++
        errors (inputs.mapM (Transfer.readInput (.base base)) >>= fun ls =>
          (Transfer.gather 0 [] ls).mapError .diagnostic) ++
        errors (Overflow.ofValue overflow)

end Request

/-- Two results that are the same, or errors of different faults. -/
def SameUpTo (faults : List Error) (x y : Except Error Outcome) : Prop :=
  x = y ∨ ∃ e ∈ faults, ∃ e' ∈ faults, e ≠ e' ∧ x = .error e ∧ y = .error e'

theorem sameUpTo_errors {faults : List Error} {e e' : Error} (h : e ∈ faults) (h' : e' ∈ faults) :
    SameUpTo faults (.error e) (.error e') := by
  by_cases heq : e = e'
  · exact Or.inl (by rw [heq])
  · exact Or.inr ⟨e, h, e', h', heq, rfl, rfl⟩

/-- A key that can be read makes the operation that is made for the call, and one that cannot be
read is one of the faults for which no operation is made. -/
theorem sameUpTo_of_read {κ α : Type} {faults : List Error} {read : Except Error κ}
    {make : κ → Except Error α} {made : Except Error α} {f : α → Except Error Outcome}
    (hread : ∀ e, read = .error e → e ∈ faults)
    (hmade : (∃ e ∈ faults, made = .error e) ∨ ∃ key, read = .ok key)
    (hmake : ∀ key, read = .ok key → make key = made) :
    SameUpTo faults (read >>= fun key => make key >>= f) (made >>= f) := by
  cases hkey : read with
  | ok key => exact Or.inl (by rw [ok_bind, hmake key hkey])
  | error e =>
    rcases hmade with ⟨e', he', hmade⟩ | ⟨key, hread'⟩
    · rw [hmade]
      exact sameUpTo_errors (hread e hkey) he'
    · rw [hread'] at hkey
      cases hkey

namespace ExtractionKey

variable {template minimum : Value} {base : Base} {precision : Precision} {named : Bool}
  {fallback : Option String}

theorem make_of_read (hv : template.Faithful) {key : ExtractionKey}
    (h : read template minimum base precision named fallback = .ok key) :
    key.make = Extraction.make
      ⟨template, .base base, .precision precision, minimum, .bool named, .none⟩ fallback := by
  simp only [read, bind_eq_ok_iff] at h
  obtain ⟨text, htext, least, hleast, engine, hengine, hkey⟩ := h
  cases hkey
  unfold make Extraction.make
  simp only [Engine.select_name, hengine, ok_bind, Template.ofValue_of_keyText hv htext,
    Precision.ofValue, Shape.least_of_least hleast, hleast]

end ExtractionKey

theorem Layout.makeSlots_of_policy {overflow : Value} {policy : Overflow}
    (h : Overflow.ofValue overflow = .ok policy) (l : Layout) (widths : Value) :
    l.makeSlots (.overflow policy) widths = l.makeSlots overflow widths := by
  rw [makeSlots, makeSlots, h]
  rfl

namespace StorageKey

variable {template overflow : Value} {base : Base} {fallback : Option String} {key : StorageKey}

/-- The key of what stores values makes what is made for the call, whatever templates and code are
asked for. -/
theorem make_of_read (accept : Template → Except Diagnostic Unit)
    (code : Layout → List Slot → Except Error Program.Function) (hv : template.Faithful)
    (h : read template overflow base fallback = .ok key) :
    Depositing.make accept code key.settings none =
      Depositing.make accept code ⟨template, .base base, overflow, .none, .none⟩ fallback := by
  simp only [read, bind_eq_ok_iff] at h
  obtain ⟨text, htext, policy, hpolicy, engine, hengine, hkey⟩ := h
  cases hkey
  unfold settings Depositing.make
  simp only [Engine.select_name, hengine, ok_bind, Template.ofValue_of_keyText hv htext,
    Layout.makeSlots_of_policy hpolicy]

theorem read_eq_error {e : Error} (h : read template overflow base fallback = .error e) :
    Template.ofValue template (.base base) = .error e ∨ Overflow.ofValue overflow = .error e ∨
      Engine.select .none fallback = .error e := by
  simp only [read, bind_eq_error_iff] at h
  rcases h with hkey | ⟨_, _, hpolicy | ⟨_, _, hengine | ⟨_, _, hpure⟩⟩⟩
  · exact Or.inl (Template.ofValue_of_keyText_error hkey)
  · exact Or.inr (Or.inl hpolicy)
  · exact Or.inr (Or.inr hengine)
  · cases hpure

theorem exists_read {t : Template} {policy : Overflow} {engine : Engine}
    (htemplate : Template.ofValue template (.base base) = .ok t)
    (hpolicy : Overflow.ofValue overflow = .ok policy)
    (hengine : Engine.select .none fallback = .ok engine) :
    ∃ key, read template overflow base fallback = .ok key := by
  obtain ⟨text, htext⟩ := Template.exists_keyText htemplate
  exact ⟨⟨text, base, policy, engine⟩, by rw [read, htext, hpolicy, hengine]; rfl⟩

/-- What is not made for lack of a key has one of the faults of its parts. -/
theorem make_faults (accept : Template → Except Diagnostic Unit)
    (code : Layout → List Slot → Except Error Program.Function) :
    (∃ e, (Engine.select .none fallback = .error e ∨
        (Template.ofValue template (.base base) >>= fun t =>
          (accept t).mapError Error.diagnostic) = .error e ∨
        Overflow.ofValue overflow = .error e) ∧
      Depositing.make accept code ⟨template, .base base, overflow, .none, .none⟩ fallback =
        .error e) ∨
    ∃ key, read template overflow base fallback = .ok key := by
  unfold Depositing.make
  cases hengine : Engine.select .none fallback with
  | error e => exact Or.inl ⟨e, Or.inl rfl, rfl⟩
  | ok engine =>
    cases htemplate : Template.ofValue template (.base base) with
    | error e => exact Or.inl ⟨e, Or.inr (Or.inl rfl), rfl⟩
    | ok t =>
      simp only [ok_bind]
      cases hcells : (accept t).mapError Error.diagnostic with
      | error e => exact Or.inl ⟨e, Or.inr (Or.inl rfl), rfl⟩
      | ok _ =>
        cases hpolicy : Overflow.ofValue overflow with
        | error e =>
          refine Or.inl ⟨e, Or.inr (Or.inr rfl), ?_⟩
          simp only [ok_bind, Layout.makeSlots, hpolicy]
          rfl
        | ok policy => exact Or.inr (exists_read htemplate hpolicy hengine)

end StorageKey

/-- Paired arguments have at least one input template. -/
theorem Transfer.inputs_of_pairUp {arguments values inputs : List Value} {output : Value}
    (h : pairUp arguments = some (values, inputs, output)) : inputs ≠ [] := by
  intro hnil
  fun_cases pairUp arguments <;> simp_all [pairUp]

namespace TransferKey

variable {inputs : List Value} {output overflow : Value} {base : Base} {fallback : Option String}
  {key : TransferKey}

theorem make_of_read (hinputs : ∀ v ∈ inputs, v.Faithful) (houtput : output.Faithful)
    (h : read inputs output overflow base fallback = .ok key) :
    key.make = Transfer.make ⟨.list inputs, output, .base base, overflow, .none⟩ fallback := by
  simp only [read, bind_eq_ok_iff] at h
  obtain ⟨texts, htexts, text, htext, policy, hpolicy, engine, hengine, hkey⟩ := h
  cases hkey
  have hread : (texts.map Value.text).mapM (Transfer.readInput (.base base)) =
      inputs.mapM (Transfer.readInput (.base base)) := by
    rw [mapM_eq_ok_iff] at htexts
    induction htexts with
    | nil => rfl
    | @cons v text vs texts hkey _ ih =>
      rw [List.forall_mem_cons] at hinputs
      rw [List.map_cons, mapM_cons, mapM_cons, ih hinputs.2, Transfer.readInput,
        Transfer.readInput, Template.ofValue_of_keyText hinputs.1 hkey]
  have hpolicy' : Overflow.ofValue (.overflow policy) = .ok policy := rfl
  unfold make Transfer.make
  simp only [Engine.select_name, hengine, ok_bind, Template.ofValue_of_keyText houtput htext,
    Transfer.inputValues, Value.items?, hread, hpolicy, hpolicy']

theorem read_eq_error {e : Error} (h : read inputs output overflow base fallback = .error e) :
    (∃ v ∈ inputs, Template.ofValue v (.base base) = .error e) ∨
      Template.ofValue output (.base base) = .error e ∨ Overflow.ofValue overflow = .error e ∨
      Engine.select .none fallback = .error e := by
  simp only [read, bind_eq_error_iff] at h
  rcases h with hkeys | ⟨_, _, hkey | ⟨_, _, hpolicy | ⟨_, _, hengine | ⟨_, _, hpure⟩⟩⟩⟩
  · obtain ⟨before, v, after, rfl, _, hkey⟩ := (mapM_eq_error_iff _ _ _).mp hkeys
    exact Or.inl ⟨v, by simp, Template.ofValue_of_keyText_error hkey⟩
  · exact Or.inr (Or.inl (Template.ofValue_of_keyText_error hkey))
  · exact Or.inr (Or.inr (Or.inl hpolicy))
  · exact Or.inr (Or.inr (Or.inr hengine))
  · cases hpure

theorem exists_read {ls : List Layout} {t : Template} {policy : Overflow} {engine : Engine}
    (hinputs : inputs.mapM (Transfer.readInput (.base base)) = .ok ls)
    (houtput : Template.ofValue output (.base base) = .ok t)
    (hpolicy : Overflow.ofValue overflow = .ok policy)
    (hengine : Engine.select .none fallback = .ok engine) :
    ∃ key, read inputs output overflow base fallback = .ok key := by
  obtain ⟨texts, htexts⟩ : ∃ texts, inputs.mapM (fun v => Template.keyText v base) = .ok texts := by
    apply exists_mapM
    intro v hv
    obtain ⟨l, hl⟩ := exists_of_mapM hinputs hv
    obtain ⟨t, ht, _⟩ := (bind_eq_ok_iff _ _ _).mp hl
    exact Template.exists_keyText ht
  obtain ⟨text, htext⟩ := Template.exists_keyText houtput
  exact ⟨⟨texts, text, base, policy, engine⟩,
    by rw [read, htexts, ok_bind, htext, hpolicy, hengine]; rfl⟩

/-- A transfer that is not made for lack of a key has one of the faults of its parts. -/
theorem make_faults (hne : inputs ≠ []) :
    (∃ e, (Engine.select .none fallback = .error e ∨
        (∃ v ∈ inputs, Transfer.readInput (.base base) v = .error e) ∨
        (Template.ofValue output (.base base) >>= fun t =>
          (t.forbidPlaceholders "an output template" "; use literals instead").mapError
            Error.diagnostic) = .error e ∨
        (inputs.mapM (Transfer.readInput (.base base)) >>= fun ls =>
          (Transfer.gather 0 [] ls).mapError Error.diagnostic) = .error e ∨
        Overflow.ofValue overflow = .error e) ∧
      Transfer.make ⟨.list inputs, output, .base base, overflow, .none⟩ fallback = .error e) ∨
    ∃ key, read inputs output overflow base fallback = .ok key := by
  simp only [Transfer.make, Transfer.inputValues, Value.items?]
  -- The parts are gone through in the order in which the transfer reads them; the key needs fewer.
  cases hengine : Engine.select .none fallback with
  | error e => exact Or.inl ⟨e, Or.inl rfl, rfl⟩
  | ok engine =>
    simp only [ok_bind]
    cases hinputs : inputs.mapM (Transfer.readInput (.base base)) with
    | error e =>
      obtain ⟨before, v, after, rfl, _, hinput⟩ := (mapM_eq_error_iff _ _ _).mp hinputs
      exact Or.inl ⟨e, Or.inr (Or.inl ⟨v, by simp, hinput⟩), rfl⟩
    | ok ls =>
      have hsome : ¬ ls.isEmpty = true := by
        have hlength := ((mapM_eq_ok_iff _ _ _).mp hinputs).length_eq
        cases ls with
        | nil => exact absurd (List.length_eq_zero_iff.mp hlength) hne
        | cons l rest => simp
      simp only [ok_bind, if_neg hsome]
      cases htemplate : Template.ofValue output (.base base) with
      | error e => exact Or.inl ⟨e, Or.inr (Or.inr (Or.inl rfl)), rfl⟩
      | ok t =>
        simp only [ok_bind]
        cases hcells : (t.forbidPlaceholders "an output template"
            "; use literals instead").mapError Error.diagnostic with
        | error e => exact Or.inl ⟨e, Or.inr (Or.inr (Or.inl rfl)), rfl⟩
        | ok _ =>
          cases hsources : (Transfer.gather 0 [] ls).mapError Error.diagnostic with
          | error e => exact Or.inl ⟨e, Or.inr (Or.inr (Or.inr (Or.inl rfl))), rfl⟩
          | ok sources =>
            cases hpolicy : Overflow.ofValue overflow with
            | error e => exact Or.inl ⟨e, Or.inr (Or.inr (Or.inr (Or.inr rfl))), rfl⟩
            | ok policy => exact Or.inr (exists_read hinputs htemplate hpolicy hengine)

end TransferKey

namespace Request

variable (caller : Caller)

theorem extract_sameUpTo (form : Form) (base : Base) (precision : Precision)
    (value : Value) {template : Value} (minimum : Value) (hv : template.Faithful) :
    SameUpTo (faults caller (.extract form base precision value template minimum))
      (alone caller (.extract form base precision value template minimum))
      (fresh caller (.extract form base precision value template minimum)) := by
  refine sameUpTo_of_read ?_ ?_ fun key => ExtractionKey.make_of_read hv
  · intro e he
    simp only [ExtractionKey.read, bind_eq_error_iff] at he
    simp only [faults, List.mem_append, mem_errors_iff]
    rcases he with hkey | ⟨_, _, hleast | ⟨_, _, hengine | ⟨_, _, hpure⟩⟩⟩
    · exact Or.inl (Or.inr (by rw [Template.ofValue_of_keyText_error hkey, error_bind]))
    · exact Or.inr hleast
    · exact Or.inl (Or.inl hengine)
    · cases hpure
  · simp only [faults, List.mem_append, mem_errors_iff, Extraction.make, ExtractionKey.read]
    cases hengine : Engine.select .none caller.engine with
    | error e => exact Or.inl ⟨e, Or.inl (Or.inl rfl), rfl⟩
    | ok engine =>
      cases htemplate : Template.ofValue template (.base base) with
      | error e => exact Or.inl ⟨e, Or.inl (Or.inr rfl), rfl⟩
      | ok t =>
        obtain ⟨text, htext⟩ := Template.exists_keyText htemplate
        simp only [ok_bind]
        cases hcells : (t.forbidLiterals "an extraction template" "").mapError
            Error.diagnostic with
        | error e => exact Or.inl ⟨e, Or.inl (Or.inr rfl), rfl⟩
        | ok _ =>
          cases hleast : Shape.least minimum (.precision precision) with
          | error e => exact Or.inl ⟨e, Or.inr rfl, by simp [Precision.ofValue, hleast]⟩
          | ok shape => exact Or.inr ⟨_, by rw [htext]; rfl⟩

theorem combine_sameUpTo (base : Base) {template : Value} (values : List Value)
    (keywords : List (Value × Value)) (overflow : Value) (hv : template.Faithful) :
    SameUpTo (faults caller (.combine base template values keywords overflow))
      (alone caller (.combine base template values keywords overflow))
      (fresh caller (.combine base template values keywords overflow)) := by
  refine sameUpTo_of_read ?_ ?_ fun key hkey =>
    congrArg (Except.map Combination.mk) (StorageKey.make_of_read _ _ hv hkey)
  · intro e he
    simp only [faults, List.mem_append, mem_errors_iff]
    rcases StorageKey.read_eq_error he with htemplate | hpolicy | hengine
    · exact Or.inl (Or.inr (by rw [htemplate, error_bind]))
    · exact Or.inr hpolicy
    · exact Or.inl (Or.inl hengine)
  · refine (StorageKey.make_faults Combination.accept (Program.combination "run")).imp_left ?_
    rintro ⟨e, hfault, hmake⟩
    refine ⟨e, ?_, by rw [Combination.make, hmake, map_error]⟩
    simp only [faults, List.mem_append, mem_errors_iff]
    exact or_assoc.mpr hfault

theorem replace_sameUpTo (base : Base) (target : Value) {template : Value} (values : List Value)
    (keywords : List (Value × Value)) (overflow : Value) (hv : template.Faithful) :
    SameUpTo (faults caller (.replace base target template values keywords overflow))
      (alone caller (.replace base target template values keywords overflow))
      (fresh caller (.replace base target template values keywords overflow)) := by
  refine sameUpTo_of_read ?_ ?_ fun key hkey =>
    congrArg (Except.map Replacement.mk) (StorageKey.make_of_read _ _ hv hkey)
  · intro e he
    simp only [faults, List.mem_append, mem_errors_iff]
    rcases StorageKey.read_eq_error he with htemplate | hpolicy | hengine
    · exact Or.inl (Or.inr htemplate)
    · exact Or.inr hpolicy
    · exact Or.inl (Or.inl hengine)
  · refine (StorageKey.make_faults Replacement.accept (Program.replacement "run")).imp_left ?_
    rintro ⟨e, hfault, hmake⟩
    refine ⟨e, ?_, by rw [Replacement.make, hmake, map_error]⟩
    simp only [faults, List.mem_append, mem_errors_iff, or_assoc]
    -- Every template is accepted, so that only reading it can fail.
    refine hfault.imp_right (Or.imp_left fun htemplate => ?_)
    rcases (bind_eq_error_iff _ _ _).mp htemplate with htemplate | ⟨_, _, haccept⟩
    · exact htemplate
    · cases haccept

theorem transfer_sameUpTo (base : Base) (arguments : List Value) (overflow : Value)
    (hv : ∀ v ∈ templates (.transfer base arguments overflow), v.Faithful) :
    SameUpTo (faults caller (.transfer base arguments overflow))
      (alone caller (.transfer base arguments overflow))
      (fresh caller (.transfer base arguments overflow)) := by
  rw [faults, alone, fresh]
  rw [templates] at hv
  cases hpairs : Transfer.pairUp arguments with
  | none => exact Or.inl rfl
  | some parts =>
    obtain ⟨values, inputs, output⟩ := parts
    rw [hpairs] at hv
    simp only [List.forall_mem_append, List.forall_mem_singleton] at hv
    refine sameUpTo_of_read ?_ ?_ fun key => TransferKey.make_of_read hv.1 hv.2
    · intro e he
      simp only [List.mem_append, List.mem_flatMap, mem_errors_iff]
      rcases TransferKey.read_eq_error he with ⟨v, hmem, hinput⟩ | houtput | hpolicy | hengine
      · have hread : Transfer.readInput (.base base) v = .error e := by
          rw [Transfer.readInput, hinput, error_bind]
        exact Or.inl (Or.inl (Or.inl (Or.inr ⟨v, hmem, hread⟩)))
      · exact Or.inl (Or.inl (Or.inr (by rw [houtput, error_bind])))
      · exact Or.inr hpolicy
      · exact Or.inl (Or.inl (Or.inl (Or.inl hengine)))
    · simp only [List.mem_append, List.mem_flatMap, mem_errors_iff, or_assoc]
      exact TransferKey.make_faults (Transfer.inputs_of_pairUp hpairs)

theorem sameUpTo (request : Request) (hv : ∀ v ∈ request.templates, v.Faithful) :
    SameUpTo (request.faults caller) (request.alone caller) (request.fresh caller) := by
  cases request with
  | extract form base precision value template minimum =>
    exact extract_sameUpTo caller form base precision value minimum
      (hv template (by simp [templates]))
  | combine base template values keywords overflow =>
    exact combine_sameUpTo caller base values keywords overflow (hv template (by simp [templates]))
  | replace base target template values keywords overflow =>
    exact replace_sameUpTo caller base target values keywords overflow
      (hv template (by simp [templates]))
  | transfer base arguments overflow => exact transfer_sameUpTo caller base arguments overflow hv

end Request

/-- The text of a template that has the given base; all other values as they are. -/
def Value.plain (base : Base) : Value → Value
  | .template t => if t.base = base then .text t.text else .template t
  | v => v

theorem Template.keyText_plain (base : Base) (v : Value) :
    keyText (v.plain base) base = keyText v base := by
  cases v with
  | template t =>
    by_cases hbase : t.base = base
    · rw [Value.plain, if_pos hbase, keyText, keyText, ofValue_template hbase]
      rfl
    · rw [Value.plain, if_neg hbase]
  | _ => rfl

namespace Transfer

/-- Change the templates among arguments in which each value is followed by its template. -/
def mapTemplates (f : Value → Value) : List Value → List Value
  | value :: input :: [output] => value :: f input :: [f output]
  | value :: input :: rest => value :: f input :: mapTemplates f rest
  | arguments => arguments

theorem length_mapTemplates (f : Value → Value) (arguments : List Value) :
    (mapTemplates f arguments).length = arguments.length := by
  fun_induction mapTemplates f arguments with
  | case1 value input output => rfl
  | case2 value input rest _ ih => rw [List.length_cons, List.length_cons, ih]; rfl
  | case3 => rfl

theorem pairUp_cons_cons {rest : List Value} (h : ∀ output, rest ≠ [output])
    (value input : Value) : pairUp (value :: input :: rest) =
      (pairUp rest).map fun parts => (value :: parts.1, input :: parts.2.1, parts.2.2) := by
  rw [pairUp]
  · cases pairUp rest <;> rfl
  · exact h

theorem pairUp_mapTemplates (f : Value → Value) (arguments : List Value) :
    pairUp (mapTemplates f arguments) =
      (pairUp arguments).map fun parts => (parts.1, parts.2.1.map f, f parts.2.2) := by
  fun_induction mapTemplates f arguments with
  | case1 value input output => rfl
  | case2 value input rest hrest ih =>
    -- The pattern of a last argument is recognised by the length, which stays.
    have hmapped : ∀ output, mapTemplates f rest ≠ [output] := by
      intro output hone
      have hlength := length_mapTemplates f rest
      rw [hone, List.length_singleton, eq_comm, List.length_eq_one_iff] at hlength
      obtain ⟨a, ha⟩ := hlength
      exact hrest a ha
    rw [pairUp_cons_cons hmapped, pairUp_cons_cons hrest, ih, Option.map_map, Option.map_map]
    rfl
  | case3 arguments _ hshort =>
    cases arguments with
    | nil => rfl
    | cons value rest =>
      cases rest with
      | nil => rfl
      | cons input rest => exact absurd rfl (hshort value input rest)

end Transfer

namespace Request

/-- The same call with every template of the right base given as its text. -/
def plain : Request → Request
  | .extract form base precision value template minimum =>
    .extract form base precision value (template.plain base) minimum
  | .combine base template values keywords overflow =>
    .combine base (template.plain base) values keywords overflow
  | .replace base target template values keywords overflow =>
    .replace base target (template.plain base) values keywords overflow
  | .transfer base arguments overflow =>
    .transfer base (Transfer.mapTemplates (Value.plain base) arguments) overflow

end Request

namespace Session

/-- A template and its text have the same key. -/
theorem step_plain (s : Session) (caller : Caller) (request : Request) :
    s.step caller request.plain = s.step caller request := by
  cases request with
  | extract form base precision value template minimum =>
    simp only [Request.plain, step, extract, ExtractionKey.read, Template.keyText_plain]
  | combine base template values keywords overflow =>
    simp only [Request.plain, step, combine, StorageKey.read, Template.keyText_plain]
  | replace base target template values keywords overflow =>
    simp only [Request.plain, step, replace, StorageKey.read, Template.keyText_plain]
  | transfer base arguments overflow =>
    simp only [Request.plain, step, transfer, Transfer.pairUp_mapTemplates,
      Transfer.length_mapTemplates]
    cases Transfer.pairUp arguments with
    | none => rfl
    | some parts =>
      simp only [Option.map_some, TransferKey.read, List.mapM_map, Function.comp_def,
        Template.keyText_plain]

/-- Kept operations do not show in the results. Every call of a session gives what it gives
alone. Alone it gives what an operation gives that is made for it, or else both fail, with
different faults of the call. A template of the right base may be given as its text. -/
theorem caches_invisible :
    (∀ steps, (({} : Session).run steps).map Reply.result =
      steps.map fun step => (({} : Session).step step.1 step.2).1.result) ∧
    (∀ caller (request : Request), (∀ v ∈ request.templates, v.Faithful) →
      SameUpTo (request.faults caller) (({} : Session).step caller request).1.result
        (request.fresh caller)) ∧
    (∀ v base t, Template.ofText v base = .ok t → (Value.template t).Faithful) ∧
    ∀ (s : Session) caller (request request' : Request), request.plain = request'.plain →
      s.step caller request = s.step caller request' := by
  refine ⟨?_, ?_, fun v base t => Template.faithful_of_ofText, ?_⟩
  · intro steps
    rw [sound_empty.run steps]
    exact List.map_congr_left fun step _ => (sound_empty.step step.1 step.2).1.symm
  · intro caller request hv
    rw [(sound_empty.step caller request).1]
    exact request.sameUpTo caller hv
  · intro s caller request request' hplain
    rw [← s.step_plain caller request, hplain, s.step_plain caller request']

/-- A call with two faults reports its least shape; an operation made for it would report its
template. -/
theorem least_shape_reported_first :
    (({} : Session).step {} (.extract .record .binary .standard (.int 0) (.text "!")
        (.int 7))).1.result = .error (.minimumNotStandard (.unsigned 7 (by decide))) ∧
      Request.fresh {} (.extract .record .binary .standard (.int 0) (.text "!") (.int 7)) =
        .error (.diagnostic ⟨.invalidCharacter '!' .binary, "!", some 0⟩) ∧
      (({} : Session).step {} (.extract .record .binary .standard (.int 0) (.text "!")
        (.int 7))).1.result ≠
        Request.fresh {} (.extract .record .binary .standard (.int 0) (.text "!") (.int 7)) := by
  have hstep : (({} : Session).step {} (.extract .record .binary .standard (.int 0) (.text "!")
      (.int 7))).1.result = .error (.minimumNotStandard (.unsigned 7 (by decide))) := by rfl
  have hfresh : Request.fresh {} (.extract .record .binary .standard (.int 0) (.text "!")
      (.int 7)) = .error (.diagnostic ⟨.invalidCharacter '!' .binary, "!", some 0⟩) := by rfl
  refine ⟨hstep, hfresh, ?_⟩
  rw [hstep, hfresh]
  intro hsame
  cases hsame

/-- Two forms and both engines ask for the same template, one of them for a single field, and one
gives the template itself. -/
theorem caches_invisible_shared :
    ∃ t, Template.ofText (.text "aaabbbcc") (.base .binary) = .ok t ∧
      (({} : Session).run
        [({}, .extract .tuple .binary .standard (.int 181) (.text "aaabbbcc") .none),
          ({}, .extract .single .binary .standard (.int 181) (.text "aaabbbcc") .none),
          (⟨{}, some "interpreted", ""⟩,
            .extract .tuple .binary .standard (.int 74) (.text "aaabbbcc") .none),
          ({}, .extract .tuple .binary .standard (.int 74) (.text "aaabbbcc") .none)]).map
          Reply.result =
        [.ok (.tuple [.int 5, .int 5, .int 1]), .error (.notOneField "aaabbbcc" 3),
          .ok (.tuple [.int 2, .int 2, .int 2]), .ok (.tuple [.int 2, .int 2, .int 2])] ∧
      Request.fresh {} (.extract .tuple .binary .standard (.int 74) (.text "aaabbbcc") .none) =
        .ok (.tuple [.int 2, .int 2, .int 2]) ∧
      ∀ s : Session, s.step {} (.extract .tuple .binary .standard (.int 74) (.template t) .none) =
        s.step {} (.extract .tuple .binary .standard (.int 74) (.text "aaabbbcc") .none) := by
  have heval : (Template.ofText (.text "aaabbbcc") (.base .binary)).map (fun t =>
      (t.text, t.base)) = .ok ("aaabbbcc", .binary) := by rfl
  rw [map_eq_ok_iff] at heval
  obtain ⟨t, ht, hwritten⟩ := heval
  obtain ⟨htext, hbase⟩ := Prod.mk.inj hwritten
  obtain ⟨hrun, hfresh, _, hplain⟩ := caches_invisible
  refine ⟨t, ht, ?_, ?_, ?_⟩
  · rw [hrun]
    rfl
  · have hfaults : Request.faults {} (.extract .tuple .binary .standard (.int 74)
        (.text "aaabbbcc") .none) = [] := by rfl
    have hresult : (({} : Session).step {} (.extract .tuple .binary .standard (.int 74)
        (.text "aaabbbcc") .none)).1.result = .ok (.tuple [.int 2, .int 2, .int 2]) := by rfl
    rcases hfresh {} (.extract .tuple .binary .standard (.int 74) (.text "aaabbbcc") .none)
      (by simp [Request.templates, Value.Faithful]) with hsame | ⟨e, he, _⟩
    · rw [← hsame, hresult]
    · rw [hfaults] at he
      cases he
  · intro s
    apply hplain
    simp [Request.plain, Value.plain, htext, hbase]

end Session

end BitTemplate
