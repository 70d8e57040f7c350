import BitTemplate.Proofs.Rearrangement
import BitTemplate.Proofs.Transfer

/-!
When the letters of a transfer can be linked. The inputs are read one after another and their
letters in order of first occurrence, so reading them is a single pass over all letters that stops
at the first one that was met before. If no letter is met twice, every letter of the output is
looked up, and the first that no input has is reported. With accepted templates and settings
nothing else can go wrong.
-/
namespace BitTemplate

open Failure

/-- The letter that a source is known by. -/
def Program.Source.letter (source : Program.Source) : Letter := source.field.name

namespace Transfer

/-- The fields of several inputs in the order in which they are read, each with its input. -/
def entriesFrom (index : Nat) (inputs : List Layout) : List (Layout × Program.Source) :=
  (inputs.zipIdx index).flatMap fun pair => pair.1.fields.map fun f => (pair.1, ⟨pair.2, f⟩)

/-- Add fields one after another to the known sources, until a letter is met again. -/
def collect : List Program.Source → List (Layout × Program.Source) →
    Except Diagnostic (List Program.Source)
  | sources, [] => .ok sources
  | sources, entry :: rest =>
    match source? sources entry.2.field.name with
    | some earlier =>
      .error ⟨.duplicateField entry.2.field.name earlier.index entry.2.index,
        entry.1.template.text, some ((entry.1.origin? entry.2.field.name).getD 0)⟩
    | none => collect (sources ++ [entry.2]) rest

theorem collect_fields (l : Layout) (index : Nat) (sources : List Program.Source)
    (fields : List Field) (rest : List (Layout × Program.Source)) :
    collect sources ((fields.map fun f => (l, ⟨index, f⟩)) ++ rest) =
      addFields l index sources fields >>= fun sources => collect sources rest := by
  induction fields generalizing sources with
  | nil => rfl
  | cons f fields ih =>
    rw [List.map_cons, List.cons_append, collect, addFields]
    cases source? sources f.name with
    | some earlier => rfl
    | none => exact ih _

/-- Reading input by input is reading field by field. -/
theorem gather_eq_collect (index : Nat) (sources : List Program.Source) (inputs : List Layout) :
    gather index sources inputs = collect sources (entriesFrom index inputs) := by
  induction inputs generalizing index sources with
  | nil => rfl
  | cons l rest ih =>
    have hentries : entriesFrom index (l :: rest) =
        (l.fields.map fun f => (l, ⟨index, f⟩)) ++ entriesFrom (index + 1) rest := by
      rw [entriesFrom, List.zipIdx_cons, List.flatMap_cons]
      rfl
    rw [hentries, collect_fields, gather]
    cases addFields l index sources l.fields with
    | error d => rfl
    | ok sources => exact ih _ _

theorem source?_eq_none_iff (sources : List Program.Source) (a : Letter) :
    source? sources a = none ↔ a ∉ sources.map Program.Source.letter := by
  rw [source?, List.find?_eq_none, List.mem_map]
  simp only [Program.Source.letter, beq_iff_eq, not_exists, not_and]

/-- Among sources of different letters, that of a letter is found wherever it stands. -/
theorem source?_eq_some_iff {sources : List Program.Source}
    (h : (sources.map Program.Source.letter).Nodup) (a : Letter)
    (source : Program.Source) :
    source? sources a = some source ↔ source ∈ sources ∧ source.field.name = a :=
  find?_eq_some_iff_of_nodup h (fun _ => beq_iff_eq) source

/-- A letter that does not occur before is added, and reading goes on. -/
theorem collect_cons_of_nodup {sources later : List Program.Source}
    {entry : Layout × Program.Source} (rest : List (Layout × Program.Source))
    (h : ((sources ++ entry.2 :: later).map Program.Source.letter).Nodup) :
    collect sources (entry :: rest) = collect (sources ++ [entry.2]) rest := by
  have hnew : source? sources entry.2.field.name = none := by
    rw [source?_eq_none_iff]
    intro hmem
    rw [List.map_append, List.nodup_append] at h
    exact h.2.2 _ hmem _ (List.mem_map_of_mem (List.mem_cons_self ..)) rfl
  rw [collect, hnew]

/-- Different letters are all collected. -/
theorem collect_of_nodup {sources : List Program.Source} {entries : List (Layout × Program.Source)}
    (h : ((sources ++ entries.map Prod.snd).map Program.Source.letter).Nodup) :
    collect sources entries = .ok (sources ++ entries.map Prod.snd) := by
  induction entries generalizing sources with
  | nil => simp [collect]
  | cons entry rest ih =>
    rw [List.map_cons] at h ⊢
    have hnext := List.append_cons sources entry.2 (rest.map Prod.snd)
    rw [collect_cons_of_nodup rest h, hnext]
    rw [hnext] at h
    exact ih h

/-- The first letter that is met again is reported with the two indices. -/
theorem collect_of_clash {sources : List Program.Source}
    {before : List (Layout × Program.Source)} {entry : Layout × Program.Source}
    (after : List (Layout × Program.Source)) {earlier : Program.Source}
    (hnodup : ((sources ++ before.map Prod.snd).map Program.Source.letter).Nodup)
    (hearlier : earlier ∈ sources ++ before.map Prod.snd)
    (hname : earlier.field.name = entry.2.field.name) :
    collect sources (before ++ entry :: after) =
      .error ⟨.duplicateField entry.2.field.name earlier.index entry.2.index,
        entry.1.template.text, some ((entry.1.origin? entry.2.field.name).getD 0)⟩ := by
  induction before generalizing sources with
  | nil =>
    rw [List.map_nil, List.append_nil] at hnodup hearlier
    have hfound := (source?_eq_some_iff hnodup _ earlier).mpr ⟨hearlier, hname⟩
    rw [List.nil_append, collect, hfound]
  | cons first before ih =>
    rw [List.map_cons] at hnodup hearlier
    rw [List.cons_append, collect_cons_of_nodup _ hnodup]
    rw [List.append_cons] at hnodup hearlier
    exact ih hnodup hearlier

/-- The letters of several inputs in the order in which they are read, each with the index of its
input. -/
def lettersFrom (index : Nat) (inputs : List Layout) : List (Letter × Nat) :=
  (inputs.zipIdx index).flatMap fun pair => pair.1.names.map fun a => (a, pair.2)

/-- Some letter occurs in two of the inputs. -/
def Clashing (inputs : List Layout) : Prop :=
  ∃ (a : Letter) (i j : Nat) (l m : Layout), i < j ∧ inputs[i]? = some l ∧ inputs[j]? = some m ∧
    a ∈ l.names ∧ a ∈ m.names

/-- The first letter that is met again while the letters of the inputs are read in order, with the
indices of the two inputs. -/
def FirstClash (inputs : List Layout) (a : Letter) (earlier later : Nat) : Prop :=
  ∃ before after, lettersFrom 0 inputs = before ++ (a, later) :: after ∧
    (before.map Prod.fst).Nodup ∧ (a, earlier) ∈ before

theorem entriesFrom_letters (index : Nat) (inputs : List Layout) :
    (entriesFrom index inputs).map (fun entry => (entry.2.field.name, entry.2.index)) =
      lettersFrom index inputs := by
  rw [entriesFrom, lettersFrom, List.map_flatMap]
  simp only [List.map_map, Layout.names]
  rfl

theorem input_of_mem_entriesFrom {inputs : List Layout} {entry : Layout × Program.Source}
    (h : entry ∈ entriesFrom 0 inputs) :
    inputs[entry.2.index]? = some entry.1 ∧ entry.2.field ∈ entry.1.fields := by
  rw [entriesFrom, List.mem_flatMap] at h
  obtain ⟨⟨l, i⟩, hl, hentry⟩ := h
  obtain ⟨f, hf, rfl⟩ := List.mem_map.mp hentry
  exact ⟨List.mk_mem_zipIdx_iff_getElem?.mp hl, hf⟩

theorem map_fst_lettersFrom (index : Nat) (inputs : List Layout) :
    (lettersFrom index inputs).map Prod.fst = inputs.flatMap Layout.names := by
  rw [lettersFrom, List.map_flatMap]
  simp only [List.map_map, Function.comp_def, List.map_id']
  rw [← List.flatMap_map, List.zipIdx_map_fst]

theorem not_clashing_iff_pairwise (inputs : List Layout) :
    ¬ Clashing inputs ↔ inputs.Pairwise fun l m => l.names.Disjoint m.names := by
  rw [List.pairwise_iff_getElem]
  constructor
  · intro h i j hi hj hij a hl hm
    exact h ⟨a, i, j, _, _, hij, List.getElem?_eq_getElem hi, List.getElem?_eq_getElem hj, hl, hm⟩
  · rintro h ⟨a, i, j, l, m, hij, hl, hm, hal, ham⟩
    obtain ⟨hi, rfl⟩ := List.getElem?_eq_some_iff.mp hl
    obtain ⟨hj, rfl⟩ := List.getElem?_eq_some_iff.mp hm
    exact h i j hi hj hij hal ham

theorem nodup_letters_iff (inputs : List Layout) :
    ((lettersFrom 0 inputs).map Prod.fst).Nodup ↔ ¬ Clashing inputs := by
  rw [map_fst_lettersFrom, List.nodup_flatMap, not_clashing_iff_pairwise]
  exact and_iff_right fun l _ => l.nodup_names

end Transfer

/-- A letter of a layout has an origin. -/
theorem Layout.exists_origin (l : Layout) {a : Letter} (h : a ∈ l.names) :
    ∃ o, l.origin? a = some o := by
  obtain ⟨f, hf, rfl⟩ := List.mem_map.mp h
  obtain ⟨g, hg⟩ : ∃ g, l.field? f.name = some g := by
    rw [← Option.isSome_iff_exists, field?, List.find?_isSome]
    exact ⟨f, hf, by simp⟩
  exact ⟨_, by rw [origin?, hg]; rfl⟩

/-- A list with repetitions has a first item that occurs before. -/
theorem exists_first_repeated {α : Type} {xs : List α} (h : ¬ xs.Nodup) :
    ∃ before a after, xs = before ++ a :: after ∧ before.Nodup ∧ a ∈ before := by
  induction xs using List.reverseRecOn with
  | nil => exact absurd List.nodup_nil h
  | append_singleton xs a ih =>
    by_cases hnodup : xs.Nodup
    · by_cases ha : a ∈ xs
      · exact ⟨xs, a, [], rfl, hnodup, ha⟩
      · refine absurd ?_ h
        rw [List.nodup_append]
        refine ⟨hnodup, List.nodup_singleton a, ?_⟩
        intro b hb c hc
        rw [List.mem_singleton.mp hc]
        exact fun hba => ha (hba ▸ hb)
    · obtain ⟨before, b, after, rfl, hbefore, hb⟩ := ih hnodup
      exact ⟨before, b, after ++ [a], by simp, hbefore, hb⟩

namespace Transfer

theorem exists_firstClash {inputs : List Layout} (h : Clashing inputs) :
    ∃ a i j, FirstClash inputs a i j := by
  have hrepeated : ¬ ((lettersFrom 0 inputs).map Prod.fst).Nodup := by
    rw [nodup_letters_iff, not_not]
    exact h
  obtain ⟨before, a, after, hsplit, hnodup, ha⟩ := exists_first_repeated hrepeated
  obtain ⟨start, rest, hletters, rfl, hrest⟩ := List.map_eq_append_iff.mp hsplit
  obtain ⟨⟨b, j⟩, tail, rfl, rfl, _⟩ := List.map_eq_cons_iff.mp hrest
  obtain ⟨⟨c, i⟩, hmem, rfl⟩ := List.mem_map.mp ha
  exact ⟨c, i, j, start, tail, hletters, hnodup, hmem⟩

theorem map_snd_entriesFrom (index : Nat) (inputs : List Layout) :
    (entriesFrom index inputs).map Prod.snd = sourcesFrom index inputs := by
  rw [entriesFrom, sourcesFrom, List.map_flatMap]
  simp only [List.map_map]
  rfl

theorem names_sourcesFrom (index : Nat) (inputs : List Layout) :
    (sourcesFrom index inputs).map Program.Source.letter =
      inputs.flatMap Layout.names := by
  rw [← map_fst_lettersFrom index, ← entriesFrom_letters, ← map_snd_entriesFrom, List.map_map,
    List.map_map]
  rfl

theorem gather_of_not_clashing {inputs : List Layout} (h : ¬ Clashing inputs) :
    gather 0 [] inputs = .ok (sourcesFrom 0 inputs) := by
  rw [← nodup_letters_iff, map_fst_lettersFrom, ← names_sourcesFrom 0] at h
  rw [gather_eq_collect, ← map_snd_entriesFrom]
  apply collect_of_nodup
  rwa [List.nil_append, map_snd_entriesFrom]

/-- The first letter that is met again is reported, where it first stands in the later input. -/
theorem gather_of_firstClash {inputs : List Layout} {a : Letter} {i j : Nat}
    (h : FirstClash inputs a i j) :
    ∃ l, inputs[j]? = some l ∧
      gather 0 [] inputs = .error ⟨.duplicateField a i j, l.template.text, l.origin? a⟩ := by
  obtain ⟨before, after, hsplit, hnodup, hearlier⟩ := h
  rw [← entriesFrom_letters] at hsplit
  obtain ⟨start, rest, hentries, rfl, hrest⟩ := List.map_eq_append_iff.mp hsplit
  obtain ⟨entry, tail, rfl, hentry, _⟩ := List.map_eq_cons_iff.mp hrest
  obtain ⟨first, hfirst, hsame⟩ := List.mem_map.mp hearlier
  have hmem : entry ∈ entriesFrom 0 inputs := by
    rw [hentries]
    simp
  obtain ⟨hinput, hfield⟩ := input_of_mem_entriesFrom hmem
  have hname : entry.2.field.name = a := congrArg Prod.fst hentry
  have hlater : entry.2.index = j := congrArg Prod.snd hentry
  have hfirstName : first.2.field.name = a := congrArg Prod.fst hsame
  have hfirstIndex : first.2.index = i := congrArg Prod.snd hsame
  have hletters : (([] ++ start.map Prod.snd).map Program.Source.letter).Nodup := by
    rw [List.nil_append, List.map_map]
    rwa [List.map_map] at hnodup
  have hclash := collect_of_clash tail hletters (List.mem_map_of_mem hfirst)
    (hfirstName.trans hname.symm)
  rw [← hentries, ← gather_eq_collect, hname, hfirstIndex, hlater] at hclash
  have horigin : some ((entry.1.origin? a).getD 0) = entry.1.origin? a := by
    have hknown : a ∈ entry.1.names := hname ▸ List.mem_map_of_mem hfield
    obtain ⟨o, ho⟩ := entry.1.exists_origin hknown
    rw [ho]
    rfl
  rw [horigin] at hclash
  exact ⟨entry.1, hlater ▸ hinput, hclash⟩

/-- The first letter of an output that no input has. -/
def FirstMissing (inputs : List Layout) (output : Template) (a : Letter) : Prop :=
  ∃ before after, output.names = before ++ a :: after ∧
    (∀ b ∈ before, ∃ l ∈ inputs, b ∈ l.names) ∧ ∀ l ∈ inputs, a ∉ l.names

theorem source?_sourcesFrom_eq_none_iff (inputs : List Layout) (a : Letter) :
    source? (sourcesFrom 0 inputs) a = none ↔ ∀ l ∈ inputs, a ∉ l.names := by
  rw [source?_eq_none_iff, names_sourcesFrom, List.mem_flatMap]
  simp only [not_exists, not_and]

theorem link_eq_error_iff (output : Layout) (sources : List Program.Source) (policy : Overflow)
    (f : Field) (d : Diagnostic) :
    link output sources policy f = .error d ↔ source? sources f.name = none ∧
      d = ⟨.unproducedField f.name, output.template.text,
        some ((output.origin? f.name).getD 0)⟩ := by
  unfold link
  cases source? sources f.name with
  | some source => simp
  | none => simp [eq_comm]

/-- A letter that some input has can be linked. -/
theorem exists_link {inputs : List Layout} (output : Layout) (policy : Overflow) {f : Field}
    (h : ∃ l ∈ inputs, f.name ∈ l.names) :
    ∃ pair, link output (sourcesFrom 0 inputs) policy f = .ok pair := by
  cases hsource : source? (sourcesFrom 0 inputs) f.name with
  | some source => exact ⟨_, link_of_source _ policy hsource⟩
  | none =>
    obtain ⟨l, hl, hname⟩ := h
    exact absurd hname ((source?_sourcesFrom_eq_none_iff inputs _).mp hsource l hl)

/-- The first letter of the output that is in no input is reported, where it first stands. -/
theorem links_of_firstMissing {inputs : List Layout} {output : Template} {a : Letter}
    (policy : Overflow) (h : FirstMissing inputs output a) :
    (⟨output⟩ : Layout).fields.mapM (link ⟨output⟩ (sourcesFrom 0 inputs) policy) =
      .error ⟨.unproducedField a, output.text, (⟨output⟩ : Layout).origin? a⟩ := by
  obtain ⟨before, after, hsplit, hbefore, hmissing⟩ := h
  rw [← Layout.names_eq ⟨output⟩] at hsplit
  obtain ⟨start, rest, hfields, rfl, hrest⟩ := List.map_eq_append_iff.mp hsplit
  obtain ⟨f, tail, rfl, rfl, _⟩ := List.map_eq_cons_iff.mp hrest
  have hname : f.name ∈ (⟨output⟩ : Layout).names := by
    rw [hsplit]
    simp
  obtain ⟨o, ho⟩ := (⟨output⟩ : Layout).exists_origin hname
  rw [hfields, mapM_eq_error_iff]
  refine ⟨start, f, tail, rfl, ?_, ?_⟩
  · intro g hg
    exact exists_link _ policy (hbefore g.name (List.mem_map_of_mem hg))
  · rw [link_eq_error_iff, source?_sourcesFrom_eq_none_iff, ho]
    exact ⟨hmissing, rfl⟩

theorem exists_firstMissing {inputs : List Layout} {output : Template} {a : Letter}
    (ha : a ∈ output.names) (h : ∀ l ∈ inputs, a ∉ l.names) :
    ∃ b, FirstMissing inputs output b := by
  obtain ⟨b, hb⟩ : ∃ b, output.names.find? (fun b => decide (∀ l ∈ inputs, b ∉ l.names)) =
      some b := by
    rw [← Option.isSome_iff_exists, List.find?_isSome]
    exact ⟨a, ha, by simpa using h⟩
  obtain ⟨hmissing, before, after, hsplit, hbefore⟩ := List.find?_eq_some_iff_append.mp hb
  refine ⟨b, before, after, hsplit, ?_, of_decide_eq_true hmissing⟩
  intro c hc
  simpa using hbefore c hc

/-- What the templates and settings of a transfer stand for, where each of them is accepted on its
own: input templates without literals, an output template without placeholders, all of one base,
and a known policy and engine. -/
structure Settings.Reads (s : Settings) (fallback : Option String) (engine : Engine)
    (inputs : List Layout) (output : Template) (policy : Overflow) : Prop where
  known_engine : Engine.select s.engine fallback = .ok engine
  read_inputs : ∃ values, inputValues s.inputs = .ok values ∧
    List.Forall₂ (fun v l => Template.ofValue v s.base = .ok l.template ∧
      ∀ cell ∈ l.template.cells, cell.isLiteral = false) values inputs
  nonempty : inputs ≠ []
  read_output : Template.ofValue s.output s.base = .ok output
  filled : ∀ cell ∈ output.cells, cell.isPlaceholder = false
  known_policy : Overflow.ofValue s.overflow = .ok policy

theorem readInput_eq_ok_iff (base v : Value) (l : Layout) :
    readInput base v = .ok l ↔ Template.ofValue v base = .ok l.template ∧
      ∀ cell ∈ l.template.cells, cell.isLiteral = false := by
  unfold readInput
  simp only [bind_eq_ok_iff, mapError_eq_ok_iff]
  constructor
  · rintro ⟨template, htemplate, _, hliterals, hl⟩
    cases hl
    exact ⟨htemplate, (template.forbid_eq_ok_iff _ _).mp hliterals⟩
  · rintro ⟨htemplate, hliterals⟩
    exact ⟨l.template, htemplate, (), (l.template.forbid_eq_ok_iff _ _).mpr hliterals,
      rfl⟩

section Made

variable {s : Settings} {fallback : Option String} {engine : Engine} {inputs : List Layout}
  {output : Template} {policy : Overflow}

theorem Settings.Reads.mapM_readInput (h : s.Reads fallback engine inputs output policy) :
    ∃ values, inputValues s.inputs = .ok values ∧
      values.mapM (readInput s.base) = .ok inputs := by
  obtain ⟨values, hvalues, hinputs⟩ := h.read_inputs
  refine ⟨values, hvalues, ?_⟩
  rw [mapM_eq_ok_iff]
  exact hinputs.imp fun v l => (readInput_eq_ok_iff s.base v l).mpr

theorem reads_of_make {t : Transfer} (h : make s fallback = .ok t) :
    ∃ engine output policy, s.Reads fallback engine t.inputs output policy ∧
      t.output = ⟨output⟩ := by
  obtain ⟨engine, values, output, _, policy, hengine, hvalues, hinputs, hempty, houtput,
    hplaceholders, hlayout, _, hpolicy, _, _⟩ := (make_eq_ok_iff s fallback t).mp h
  rw [mapM_eq_ok_iff] at hinputs
  exact ⟨engine, output, policy, ⟨hengine, ⟨values, hvalues,
    hinputs.imp fun v l => (readInput_eq_ok_iff s.base v l).mp⟩, hempty, houtput, hplaceholders,
    hpolicy⟩, hlayout⟩

/-- With accepted templates and settings, all that remains is to gather and to link the letters. -/
theorem Settings.Reads.make_eq (h : s.Reads fallback engine inputs output policy) :
    make s fallback = (gather 0 [] inputs).mapError .diagnostic >>= fun sources =>
      ((⟨output⟩ : Layout).fields.mapM (link ⟨output⟩ sources policy)).mapError .diagnostic >>=
        fun slots => (Executor.prepare engine
          (Program.transfer "run" inputs.length ⟨output⟩ slots)).map
            fun executor => ⟨executor, inputs, ⟨output⟩, slots⟩ := by
  obtain ⟨values, hvalues, hinputs⟩ := h.mapM_readInput
  have hsome : inputs.isEmpty = false := by
    rw [List.isEmpty_eq_false_iff]
    exact h.nonempty
  have hfilled : output.forbidPlaceholders "an output template" "; use literals instead" =
      .ok () := by
    rw [Template.forbidPlaceholders, Template.forbid_eq_ok_iff]
    exact h.filled
  unfold make
  simp only [h.known_engine, hvalues, hinputs, hsome, h.read_output, hfilled, h.known_policy,
    ok_bind, Except.mapError, Bool.false_eq_true, if_false]
  rfl

theorem Settings.Reads.make_of_firstClash (h : s.Reads fallback engine inputs output policy)
    {a : Letter} {i j : Nat} (hclash : FirstClash inputs a i j) :
    ∃ l, inputs[j]? = some l ∧ make s fallback =
      .error (.diagnostic ⟨.duplicateField a i j, l.template.text, l.origin? a⟩) := by
  obtain ⟨l, hl, hgather⟩ := gather_of_firstClash hclash
  exact ⟨l, hl, by rw [h.make_eq, hgather]; rfl⟩

theorem Settings.Reads.make_of_firstMissing (h : s.Reads fallback engine inputs output policy)
    (hclash : ¬ Clashing inputs) {a : Letter} (hmissing : FirstMissing inputs output a) :
    make s fallback =
      .error (.diagnostic ⟨.unproducedField a, output.text, (⟨output⟩ : Layout).origin? a⟩) := by
  rw [h.make_eq, gather_of_not_clashing hclash]
  change ((⟨output⟩ : Layout).fields.mapM (link ⟨output⟩ (sourcesFrom 0 inputs) policy)).mapError
    Error.diagnostic >>= _ = _
  rw [links_of_firstMissing policy hmissing]
  rfl

theorem Settings.Reads.exists_make (h : s.Reads fallback engine inputs output policy)
    (hclash : ¬ Clashing inputs) (hproduced : ∀ a ∈ output.names, ∃ l ∈ inputs, a ∈ l.names) :
    ∃ t, make s fallback = .ok t := by
  obtain ⟨values, hvalues, hinputs⟩ := h.mapM_readInput
  obtain ⟨slots, hslots⟩ : ∃ slots, (⟨output⟩ : Layout).fields.mapM
      (link ⟨output⟩ (sourcesFrom 0 inputs) policy) = .ok slots := by
    apply exists_mapM
    intro f hf
    obtain ⟨a, ha, rfl⟩ := (Layout.mem_fields_iff _ f).mp hf
    exact exists_link _ policy (hproduced a ha)
  obtain ⟨t, ht, _⟩ := Transfer.exists_make h.known_engine hvalues hinputs h.nonempty h.read_output
    h.filled (gather_of_not_clashing hclash) h.known_policy hslots
  exact ⟨t, ht⟩

theorem clashing_of_firstClash {a : Letter} {i j : Nat} (h : FirstClash inputs a i j) :
    Clashing inputs := by
  by_contra hnot
  rw [← nodup_letters_iff] at hnot
  obtain ⟨before, after, hsplit, _, hearlier⟩ := h
  rw [hsplit, List.map_append, List.nodup_append] at hnot
  exact hnot.2.2 a (List.mem_map_of_mem hearlier) a (by simp) rfl

end Made

/-- What becomes of a transfer whose templates and settings are accepted: the first letter that two
inputs share is reported, or else the first letter of the output that none of them has, or else the
transfer is made. -/
structure Verdict (inputs : List Layout) (output : Template) (made : Except Error Transfer) :
    Prop where
  duplicate_iff : (∃ e, made = .error e ∧ e.errorClass = .duplicateField) ↔ Clashing inputs
  first_duplicate_iff : ∀ a i j, FirstClash inputs a i j ↔ ∃ l, inputs[j]? = some l ∧
    made = .error (.diagnostic ⟨.duplicateField a i j, l.template.text, l.origin? a⟩)
  undefined_iff : (∃ e, made = .error e ∧ e.errorClass = .undefinedField) ↔
    ¬ Clashing inputs ∧ ∃ a ∈ output.names, ∀ l ∈ inputs, a ∉ l.names
  first_undefined_iff : ∀ a, (¬ Clashing inputs ∧ FirstMissing inputs output a) ↔
    made = .error (.diagnostic
      ⟨.unproducedField a, output.text, (⟨output⟩ : Layout).origin? a⟩)
  made_iff : (∃ t, made = .ok t) ↔
    ¬ Clashing inputs ∧ ∀ a ∈ output.names, ∃ l ∈ inputs, a ∈ l.names

section Verdict

variable {s : Settings} {fallback : Option String} {engine : Engine} {inputs : List Layout}
  {output : Template} {policy : Overflow}

theorem Settings.Reads.verdict_of_firstClash (h : s.Reads fallback engine inputs output policy)
    {a : Letter} {i j : Nat} (hfirst : FirstClash inputs a i j) :
    Verdict inputs output (make s fallback) := by
  have hclash := clashing_of_firstClash hfirst
  obtain ⟨l, hl, hmake⟩ := h.make_of_firstClash hfirst
  refine ⟨?_, ?_, ?_, ?_, ?_⟩
  · exact iff_of_true ⟨_, hmake, rfl⟩ hclash
  · intro b i' j'
    refine ⟨h.make_of_firstClash, ?_⟩
    rintro ⟨m, _, hmake'⟩
    rw [hmake] at hmake'
    simp only [Except.error.injEq, Error.diagnostic.injEq, Diagnostic.mk.injEq,
      Fault.duplicateField.injEq] at hmake'
    obtain ⟨⟨rfl, rfl, rfl⟩, _, _⟩ := hmake'
    exact hfirst
  · refine iff_of_false ?_ fun hnot => hnot.1 hclash
    rintro ⟨e, he, hclass⟩
    rw [hmake] at he
    cases he
    cases hclass
  · intro b
    refine iff_of_false (fun hnot => hnot.1 hclash) ?_
    rw [hmake]
    simp
  · refine iff_of_false ?_ fun hnot => hnot.1 hclash
    rw [hmake]
    simp

theorem Settings.Reads.verdict_of_firstMissing (h : s.Reads fallback engine inputs output policy)
    (hclash : ¬ Clashing inputs) {a : Letter} (hfirst : FirstMissing inputs output a) :
    Verdict inputs output (make s fallback) := by
  have hmake := h.make_of_firstMissing hclash hfirst
  obtain ⟨ha, hmissing⟩ : a ∈ output.names ∧ ∀ l ∈ inputs, a ∉ l.names := by
    obtain ⟨before, after, hsplit, _, hmissing⟩ := hfirst
    exact ⟨by rw [hsplit]; simp, hmissing⟩
  refine ⟨?_, ?_, ?_, ?_, ?_⟩
  · refine iff_of_false ?_ hclash
    rintro ⟨e, he, hclass⟩
    rw [hmake] at he
    cases he
    cases hclass
  · intro b i j
    refine iff_of_false (fun hb => hclash (clashing_of_firstClash hb)) ?_
    rw [hmake]
    simp
  · exact iff_of_true ⟨_, hmake, rfl⟩ ⟨hclash, a, ha, hmissing⟩
  · intro b
    refine ⟨fun hb => h.make_of_firstMissing hclash hb.2, ?_⟩
    intro hmake'
    rw [hmake] at hmake'
    simp only [Except.error.injEq, Error.diagnostic.injEq, Diagnostic.mk.injEq,
      Fault.unproducedField.injEq] at hmake'
    obtain ⟨rfl, _, _⟩ := hmake'
    exact ⟨hclash, hfirst⟩
  · refine iff_of_false (by rw [hmake]; simp) ?_
    rintro ⟨_, hproduced⟩
    obtain ⟨l, hl, hal⟩ := hproduced a ha
    exact hmissing l hl hal

theorem Settings.Reads.verdict_of_produced (h : s.Reads fallback engine inputs output policy)
    (hclash : ¬ Clashing inputs) (hproduced : ∀ a ∈ output.names, ∃ l ∈ inputs, a ∈ l.names) :
    Verdict inputs output (make s fallback) := by
  obtain ⟨t, ht⟩ := h.exists_make hclash hproduced
  have hnone : ¬ ∃ a ∈ output.names, ∀ l ∈ inputs, a ∉ l.names := by
    rintro ⟨a, ha, hmissing⟩
    obtain ⟨l, hl, hal⟩ := hproduced a ha
    exact hmissing l hl hal
  refine ⟨?_, ?_, ?_, ?_, ?_⟩
  · exact iff_of_false (by rw [ht]; simp) hclash
  · intro a i j
    exact iff_of_false (fun ha => hclash (clashing_of_firstClash ha)) (by rw [ht]; simp)
  · exact iff_of_false (by rw [ht]; simp) fun hsome => hnone hsome.2
  · intro a
    refine iff_of_false ?_ (by rw [ht]; simp)
    rintro ⟨_, before, after, hsplit, _, hmissing⟩
    exact hnone ⟨a, by rw [hsplit]; simp, hmissing⟩
  · exact iff_of_true ⟨t, ht⟩ ⟨hclash, hproduced⟩

theorem Settings.Reads.verdict (h : s.Reads fallback engine inputs output policy) :
    Verdict inputs output (make s fallback) := by
  by_cases hclash : Clashing inputs
  · obtain ⟨a, i, j, hfirst⟩ := exists_firstClash hclash
    exact h.verdict_of_firstClash hfirst
  · by_cases hproduced : ∀ a ∈ output.names, ∃ l ∈ inputs, a ∈ l.names
    · exact h.verdict_of_produced hclash hproduced
    · push Not at hproduced
      obtain ⟨a, ha, hmissing⟩ := hproduced
      obtain ⟨b, hfirst⟩ := exists_firstMissing ha hmissing
      exact h.verdict_of_firstMissing hclash hfirst

end Verdict

end Transfer

end BitTemplate
