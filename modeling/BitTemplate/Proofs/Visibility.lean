import BitTemplate.Proofs.Origins
import BitTemplate.Proofs.Rendering

/-!
Which names the lines of a definition read and assign. The code of an operation assigns no name
twice, and none that is a parameter. A line reads parameters, what the lines above it assign, and
the two functions that make a value fit: letters are taken out of the inputs first, then values are
made to fit, and the last line stores them.
-/
namespace BitTemplate

open Failure

namespace Script

mutual

/-- The names that an expression reads, with those of the functions that it calls. -/
def Expression.names : Expression → List String
  | .name s => [s]
  | .number _ => []
  | .text _ => []
  | .binary _ left right => left.names ++ right.names
  | .tuple items => namesOf items
  | .call f arguments => f :: namesOf arguments

def namesOf : List Expression → List String
  | [] => []
  | t :: trees => t.names ++ namesOf trees

end

/-- What a line reads and what it assigns. -/
structure Access where
  reads : List String
  assigns : List String

mutual

def Statement.accesses : Statement → List Access
  | .assign x e => [⟨e.names, [x]⟩]
  | .perform e => [⟨e.names, []⟩]
  | .check condition body => ⟨condition.names, []⟩ :: accessesOf body
  | .give e => [⟨e.names, []⟩]

/-- The accesses of all lines, from the first on. -/
def accessesOf : List Statement → List Access
  | [] => []
  | statement :: rest => statement.accesses ++ accessesOf rest

end

namespace Definition

def accesses (d : Definition) : List Access := accessesOf d.body

/-- The parameters and everything that is assigned. -/
def bound (d : Definition) : List String := d.params ++ d.accesses.flatMap Access.assigns

end Definition

/-- Every line reads names that are known, or that a line above assigns. -/
def Scoped (known : List String) (lines : List Access) : Prop :=
  ∀ above line below, lines = above ++ line :: below →
    ∀ x ∈ line.reads, x ∈ known ++ above.flatMap Access.assigns

/-- The functions that make a value fit. -/
def helpers : List String := ["overflow", "min"]

/-- A definition whose lines read what they may, and that binds no name twice. -/
structure Definition.Visible (d : Definition) : Prop where
  inScope : Scoped (helpers ++ d.params) d.accesses
  nodup : d.bound.Nodup

theorem scoped_of_known {known : List String} {lines : List Access}
    (h : ∀ line ∈ lines, ∀ x ∈ line.reads, x ∈ known) : Scoped known lines := by
  rintro above line below rfl x hx
  exact List.mem_append_left _ (h line (by simp) x hx)

theorem Scoped.append {known : List String} {lines later : List Access} (h : Scoped known lines)
    (hlater : Scoped (known ++ lines.flatMap Access.assigns) later) :
    Scoped known (lines ++ later) := by
  intro above line below heq x hx
  rcases List.append_eq_append_iff.mp heq with ⟨mid, rfl, hmid⟩ | ⟨mid, rfl, hmid⟩
  · have hknown := hlater mid line below hmid x hx
    rwa [List.append_assoc, ← List.flatMap_append] at hknown
  · cases mid with
    | nil =>
      have hknown := hlater [] line below hmid.symm x hx
      simpa using hknown
    | cons first rest =>
      obtain ⟨rfl, rfl⟩ := List.cons.inj hmid
      exact h above line rest rfl x hx

theorem namesOf_eq (trees : List Expression) : namesOf trees = trees.flatMap Expression.names := by
  induction trees with
  | nil => rfl
  | cons t trees ih => rw [namesOf, ih, List.flatMap_cons]

theorem accessesOf_eq (statements : List Statement) :
    accessesOf statements = statements.flatMap Statement.accesses := by
  induction statements with
  | nil => rfl
  | cons statement rest ih => rw [accessesOf, ih, List.flatMap_cons]

theorem names_unionOf (trees : List Expression) :
    (unionOf trees).names = trees.flatMap Expression.names := by
  cases trees with
  | nil => rfl
  | cons t trees =>
    rw [unionOf, List.flatMap_cons]
    induction trees generalizing t with
    | nil => simp
    | cons u trees ih =>
      rw [List.foldl_cons, ih, Expression.names, List.flatMap_cons, List.append_assoc]

end Script

namespace Program

open Script

theorem decimalNat_injective {m n : Nat} (h : Text.decimalNat m = Text.decimalNat n) : m = n := by
  have hnumber := number?_decimalNat m
  rw [h, number?_decimalNat] at hnumber
  exact (Option.some.inj hnumber).symm

theorem Name.text_injective : Function.Injective Name.text := by
  intro x y h
  have hlist : x.text.toList = y.text.toList := congrArg String.toList h
  have hnumbered {stem : String} {m n : Nat}
      (h : stem ++ Text.decimalNat m = stem ++ Text.decimalNat n) : m = n :=
    decimalNat_injective (by simpa using h)
  cases x <;> cases y
  case letter.letter => rw [Letter.eq_of_text_eq h]
  case input.input => rw [hnumbered h]
  case saturated.saturated => rw [hnumbered h]
  -- The others have no first letter in common, or not the same length.
  all_goals first | rfl | simp [text, Letter.text] at hlist

theorem Term.names_tree (t : Term) : t.tree.names = t.names.map Name.text := by
  induction t with
  | name x => rfl
  | constant c => rfl
  | mask t c ih => rw [tree, Expression.names, ih, names]; exact List.append_nil _
  | left t distance ih => rw [tree, Expression.names, ih, names]; exact List.append_nil _
  | right t distance ih => rw [tree, Expression.names, ih, names]; exact List.append_nil _

theorem names_unionTree (terms : List Term) :
    (unionOf (terms.map Term.tree)).names = (terms.flatMap Term.names).map Name.text := by
  rw [names_unionOf, List.flatMap_map, List.map_flatMap]
  simp only [Term.names_tree]

theorem Expr.names_tree (e : Expr) : e.tree.names = e.names.map Name.text := by
  cases e with
  | union terms => exact names_unionTree terms
  | bounded terms c =>
    rw [tree, Expression.names, names_unionTree]
    exact List.append_nil _
  | test x c => rfl

theorem Return.names_tree {result : Return} (h : result.record? = none) :
    result.tree.names = result.names.map Name.text := by
  cases result with
  | value e => exact e.names_tree
  | tuple items =>
    rw [tree, Expression.names, namesOf_eq, List.flatMap_map, names, List.map_flatMap]
    simp only [Expr.names_tree]
  | record name items => cases h

namespace Step

theorem reads_accesses (step : Step) : ∀ line ∈ step.statement.accesses, ∀ w ∈ line.reads,
    w ∈ helpers ∨ w ∈ step.mentions.map Name.text := by
  cases step with
  | refuse x field limit =>
    simp [helpers, statement, Statement.accesses, accessesOf, Expression.names, namesOf, mentions]
  | clamp x source limit =>
    simp [helpers, statement, Statement.accesses, Expression.names, namesOf, mentions]
  | assign x e =>
    intro line hline w hw
    rw [List.mem_singleton.mp hline, Expr.names_tree] at hw
    exact .inr hw

theorem assigns_accesses (step : Step) :
    step.statement.accesses.flatMap Access.assigns = step.assigns.map Name.text := by
  cases step <;> rfl

end Step

namespace Function

theorem accesses_definition (f : Function) : f.definition.accesses =
    f.steps.flatMap (fun step => step.statement.accesses) ++ [⟨f.result.tree.names, []⟩] := by
  rw [Definition.accesses, accessesOf_eq, definition, List.flatMap_append, List.flatMap_map]
  rfl

theorem assigns_steps (steps : List Step) :
    (steps.flatMap fun step => step.statement.accesses).flatMap Access.assigns =
      (steps.flatMap Step.assigns).map Name.text := by
  rw [List.flatMap_assoc, List.map_flatMap]
  simp only [Step.assigns_accesses]

theorem bound_definition (f : Function) : f.definition.bound = f.bound.map Name.text := by
  rw [Definition.bound, accesses_definition, List.flatMap_append, assigns_steps, bound,
    List.map_append]
  simp [definition]

theorem scoped_steps {names : List Name} {steps : List Step}
    (h : ∀ x ∈ steps.flatMap Step.mentions, x ∈ names) :
    Scoped (helpers ++ names.map Name.text)
      (steps.flatMap fun step => step.statement.accesses) := by
  refine scoped_of_known ?_
  intro line hline w hw
  obtain ⟨step, hstep, hline⟩ := List.mem_flatMap.mp hline
  rcases step.reads_accesses line hline w hw with hw | hw
  · exact List.mem_append_left _ hw
  · obtain ⟨x, hx, rfl⟩ := List.mem_map.mp hw
    exact List.mem_append_right _
      (List.mem_map_of_mem (h x (List.mem_flatMap.mpr ⟨step, hstep, hx⟩)))

/-- What is known after some steps. -/
theorem known_steps (names : List Name) (steps : List Step) :
    helpers ++ names.map Name.text ++
        (steps.flatMap fun step => step.statement.accesses).flatMap Access.assigns =
      helpers ++ (names ++ steps.flatMap Step.assigns).map Name.text := by
  rw [assigns_steps, List.map_append, List.append_assoc]

/-- Steps in two stages, of which the later one mentions what the first assigns. -/
theorem scoped_definition {f : Function} {first later : List Step}
    (hsteps : f.steps = first ++ later)
    (hfirst : ∀ x ∈ first.flatMap Step.mentions, x ∈ f.params)
    (hlater : ∀ x ∈ later.flatMap Step.mentions, x ∈ f.params ++ first.flatMap Step.assigns)
    (hclosed : f.Closed) (hrecord : f.result.record? = none) :
    Scoped (helpers ++ f.definition.params) f.definition.accesses := by
  have hresult : Scoped (helpers ++ f.bound.map Name.text) [⟨f.result.tree.names, []⟩] := by
    refine scoped_of_known ?_
    intro line hline w hw
    rw [List.mem_singleton.mp hline, Return.names_tree hrecord] at hw
    obtain ⟨x, hx, rfl⟩ := List.mem_map.mp hw
    exact List.mem_append_right _ (List.mem_map_of_mem (hclosed x (List.mem_append_right _ hx)))
  rw [accesses_definition, hsteps, List.flatMap_append, List.append_assoc]
  refine (scoped_steps hfirst).append ?_
  rw [known_steps]
  refine (scoped_steps hlater).append ?_
  rwa [known_steps, List.append_assoc, ← List.flatMap_append, ← hsteps]

end Function

theorem assigns_adapt (slot : Slot) (fresh : Nat) :
    ((adapt slot (.letter slot.name) fresh).1.flatMap Step.assigns = [] ∧
      (adapt slot (.letter slot.name) fresh).2.2 = fresh) ∨
    ((adapt slot (.letter slot.name) fresh).1.flatMap Step.assigns = [.saturated fresh] ∧
      (adapt slot (.letter slot.name) fresh).2.2 = fresh + 1) := by
  unfold adapt
  split
  · cases slot.overflow with
    | saturate => exact .inr ⟨rfl, rfl⟩
    | panic => exact .inl ⟨rfl, rfl⟩
    | truncate => exact .inl ⟨rfl, rfl⟩
    | corrupt => exact .inl ⟨rfl, rfl⟩
  · exact .inl ⟨rfl, rfl⟩

/-- What is assigned to make values fit has numbers from a first one on, each of them once. -/
theorem assigns_adaptAll (slots : List Slot) (fresh : Nat) :
    ((adaptAll slots fresh).1.flatMap Step.assigns).Nodup ∧
      ∀ x ∈ (adaptAll slots fresh).1.flatMap Step.assigns, ∃ k, fresh ≤ k ∧ x = .saturated k := by
  induction slots generalizing fresh with
  | nil => simp [adaptAll]
  | cons slot rest ih =>
    obtain ⟨hnodup, hnumbers⟩ := ih (adapt slot (.letter slot.name) fresh).2.2
    rw [adaptAll_cons, List.flatMap_append]
    rcases assigns_adapt slot fresh with ⟨hassigns, hfresh⟩ | ⟨hassigns, hfresh⟩
    · rw [hassigns, List.nil_append]
      rw [hfresh] at hnodup hnumbers ⊢
      exact ⟨hnodup, hnumbers⟩
    · rw [hassigns, List.singleton_append, List.nodup_cons, List.forall_mem_cons]
      rw [hfresh] at hnodup hnumbers ⊢
      refine ⟨⟨?_, hnodup⟩, ⟨fresh, le_rfl, rfl⟩, ?_⟩
      · intro hmem
        obtain ⟨k, hk, heq⟩ := hnumbers _ hmem
        cases heq
        omega
      · intro x hx
        obtain ⟨k, hk, heq⟩ := hnumbers x hx
        exact ⟨k, by omega, heq⟩

/-- Names that are bound before values are made to fit stay apart from what is assigned then. -/
theorem nodup_append_adaptAll {names : List Name} (hnodup : names.Nodup)
    (hnames : ∀ x ∈ names, ∀ k, x ≠ .saturated k) (slots : List Slot) :
    (names ++ (adaptAll slots 0).1.flatMap Step.assigns).Nodup := by
  obtain ⟨hassigned, hnumbers⟩ := assigns_adaptAll slots 0
  refine hnodup.append hassigned ?_
  intro x hx hmem
  obtain ⟨k, _, rfl⟩ := hnumbers x hmem
  exact hnames _ hx k rfl

theorem visible_of_nodup {f : Function} {first later : List Step}
    (hsteps : f.steps = first ++ later)
    (hfirst : ∀ x ∈ first.flatMap Step.mentions, x ∈ f.params)
    (hlater : ∀ x ∈ later.flatMap Step.mentions, x ∈ f.params ++ first.flatMap Step.assigns)
    (hclosed : f.Closed) (hrecord : f.result.record? = none) (hnodup : f.bound.Nodup) :
    f.definition.Visible := by
  refine ⟨f.scoped_definition hsteps hfirst hlater hclosed hrecord, ?_⟩
  rw [f.bound_definition]
  exact hnodup.map Name.text_injective

theorem visible_extraction {name : String} {width : Nat} {shaped : List (Field × Shape)}
    {f : Function} (h : extraction name none width shaped = .ok f) : f.definition.Visible := by
  obtain ⟨hclosed, hbound, hrecord⟩ := closed_extraction h
  obtain ⟨items, _, hf⟩ := (bind_eq_ok_iff _ _ _).mp h
  cases hf
  refine visible_of_nodup (List.append_nil []).symm (by simp) (by simp) hclosed hrecord ?_
  rw [hbound]
  exact List.nodup_singleton _

theorem visible_combine {f : Function} {layout : Layout} {slots : List Slot} {kept : Option Name}
    {e : Expr} (h : combine layout slots kept = .ok (f.steps, e))
    (hletters : ∀ slot ∈ slots, Name.letter slot.name ∈ f.params) (hnodup : f.params.Nodup)
    (hparams : ∀ x ∈ f.params, ∀ k, x ≠ .saturated k) (hclosed : f.Closed)
    (hrecord : f.result.record? = none) : f.definition.Visible := by
  obtain ⟨_, _, _, _, _, _, hsteps, _⟩ := combine_eq_ok h
  refine visible_of_nodup (List.nil_append f.steps).symm (by simp) ?_ hclosed hrecord ?_
  · intro x hx
    rw [hsteps] at hx
    obtain ⟨slot, hslot, rfl⟩ := List.mem_map.mp ((names_adaptAll slots 0).1 x hx)
    exact List.mem_append_left _ (hletters slot hslot)
  · rw [Function.bound, hsteps]
    exact nodup_append_adaptAll hnodup hparams slots

theorem visible_combination {name : String} {layout : Layout} {slots : List Slot} {f : Function}
    (hnodup : (slots.map Slot.name).Nodup) (h : combination name layout slots = .ok f) :
    f.definition.Visible := by
  obtain ⟨hclosed, hrecord⟩ := closed_combination h
  obtain ⟨⟨steps, e⟩, hcombine, hf⟩ := (bind_eq_ok_iff _ _ _).mp h
  cases hf
  refine visible_combine hcombine ?_ (nodup_letters slots hnodup) (by simp) hclosed hrecord
  exact fun slot hslot => List.mem_map_of_mem hslot

theorem visible_replacement {name : String} {layout : Layout} {slots : List Slot} {f : Function}
    (hnodup : (slots.map Slot.name).Nodup) (h : replacement name layout slots = .ok f) :
    f.definition.Visible := by
  obtain ⟨hclosed, hrecord⟩ := closed_replacement h
  obtain ⟨⟨steps, e⟩, hcombine, hf⟩ := (bind_eq_ok_iff _ _ _).mp h
  cases hf
  refine visible_combine hcombine ?_ ?_ (by simp) hclosed hrecord
  · exact fun slot hslot => List.mem_cons_of_mem _ (List.mem_map_of_mem hslot)
  · exact List.nodup_cons.mpr ⟨by simp, nodup_letters slots hnodup⟩

theorem visible_transfer {name : String} {inputs : Nat} {output : Layout}
    {slots : List (Slot × Source)} (hindex : ∀ pair ∈ slots, pair.2.index < inputs)
    (hnodup : (slots.map fun pair => pair.1.name).Nodup) {f : Function}
    (h : transfer name inputs output slots = .ok f) : f.definition.Visible := by
  obtain ⟨hclosed, hrecord⟩ := closed_transfer hindex h
  obtain ⟨assigned, hassigned, hrest⟩ := (bind_eq_ok_iff _ _ _).mp h
  obtain ⟨⟨steps, e⟩, hcombine, hf⟩ := (bind_eq_ok_iff _ _ _).mp hrest
  obtain ⟨hletters, hinputs⟩ := names_taken hindex hassigned
  obtain ⟨_, _, _, _, _, _, hsteps, _⟩ := combine_eq_ok hcombine
  cases hf
  refine visible_of_nodup rfl hinputs ?_ hclosed hrecord ?_
  · intro x hx
    rw [hsteps] at hx
    rw [hletters]
    exact List.mem_append_right _ ((names_adaptAll _ 0).1 x hx)
  · rw [Function.bound, List.flatMap_append, hletters, hsteps, ← List.append_assoc]
    refine nodup_append_adaptAll ?_ ?_ _
    · refine List.Nodup.append ?_ (nodup_letters _ ?_) ?_
      · exact List.nodup_range.map fun i j hij => Name.input.inj hij
      · rwa [List.map_map]
      · intro x hx hmem
        obtain ⟨i, _, rfl⟩ := List.mem_map.mp hx
        simp at hmem
    · intro x hx k
      rcases List.mem_append.mp hx with hx | hx
      · obtain ⟨i, _, rfl⟩ := List.mem_map.mp hx
        simp
      · obtain ⟨slot, _, rfl⟩ := List.mem_map.mp hx
        simp

end Program

namespace Operation

theorem Made.visible {op : Operation} (h : op.Made) {name : String} {f : Program.Function}
    (hf : op.function name none = .ok f) : f.definition.Visible := by
  cases h with
  | extraction h => exact Program.visible_extraction hf
  | combination h =>
    obtain ⟨_, hnodup, _⟩ := Layout.slots_of_fields (Combination.make_engines h).1
    exact Program.visible_combination hnodup hf
  | replacement h =>
    obtain ⟨_, hnodup, _⟩ := Layout.slots_of_fields (Replacement.make_engines h).1
    exact Program.visible_replacement hnodup hf
  | transfer h =>
    obtain ⟨_, hnodup, hindex⟩ := Transfer.slots_of_make h
    exact Program.visible_transfer hindex hnodup hf

end Operation

end BitTemplate
