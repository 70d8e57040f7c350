import BitTemplate.Document.Description
import BitTemplate.Proofs.Validation

/-!
What the schema of descriptions accepts. Whether a document conforms is said here without the
keywords of the schema: which keys a dictionary has, and what stands at them. A validator that
follows the laws of the keywords accepts exactly the conforming documents. The check accepts these,
and nothing, which it takes for a missing document.
-/
namespace BitTemplate

open Failure

namespace Validator.Standard

variable {V : Validator} {Matches : String → String → Prop}
  {Obeys : Schema → Keyword → Value → Prop}

/-- What the four keywords of an object say together. -/
theorem accepts_object_dict_iff (h : V.Standard Matches Obeys) (parts : List (String × Schema))
    {entries : List (Value × Value)} (hv : Value.IsDocument (.dict entries)) :
    V.Accepts (.object parts) (.dict entries) ↔
      (∀ part ∈ parts, ∀ w, (.text part.1, w) ∈ entries → V.Accepts part.2 w) ∧
      (∀ entry ∈ entries, ∃ name ∈ parts.map Prod.fst, entry.1 = .text name) ∧
      ∀ name ∈ parts.map Prod.fst, ∃ w, (.text name, w) ∈ entries := by
  have hnames : Schema.propertyNames (.object parts) = parts.map Prod.fst := by
    simp [Schema.propertyNames, Schema.object]
  rw [h.accepts hv]
  conv_lhs => rw [Schema.object]
  simp only [List.forall_mem_cons, h.type hv, h.properties hv, h.closed hv, h.required hv,
    Value.dict.injEq, forall_eq']
  rw [← Schema.object, hnames]
  simp [Kind.Includes]

theorem exists_dict_of_accepts_object (h : V.Standard Matches Obeys)
    {parts : List (String × Schema)} {v : Value} (hv : v.IsDocument)
    (haccepts : V.Accepts (.object parts) v) : ∃ entries, v = .dict entries :=
  (h.type hv).mp ((h.accepts hv).mp haccepts (.type .object) (List.mem_cons_self ..))

/-- The schema of an object accepts the dictionaries that have one entry for each of its names, with
a value that the schema of the name accepts, and no others. -/
theorem accepts_object_iff (h : V.Standard Matches Obeys) {parts : List (String × Schema)}
    (hnames : (parts.map Prod.fst).Nodup) {v : Value} (hv : v.IsDocument) :
    V.Accepts (.object parts) v ↔ ∃ values : List Value,
      v.Has ((parts.zip values).map fun pair => (pair.1.1, pair.2)) ∧
      List.Forall₂ (fun part w => V.Accepts part.2 w) parts values := by
  constructor
  · intro haccepts
    obtain ⟨entries, rfl⟩ := h.exists_dict_of_accepts_object hv haccepts
    obtain ⟨hobeyed, hclosed, hrequired⟩ := (h.accepts_object_dict_iff parts hv).mp haccepts
    cases hv with
    | dict _ _ hdistinct =>
    choose! value hvalue using hrequired
    refine ⟨parts.map fun part => value part.1, ⟨entries, rfl, ?_⟩, ?_⟩
    · have hperm := Value.perm_of_keys hdistinct hnames hclosed hvalue
      rw [← List.map_prod_left_eq_zip, List.map_map, List.map_map]
      rwa [List.map_map] at hperm
    · rw [List.forall₂_map_right_iff, List.forall₂_same]
      exact fun part hpart => hobeyed part hpart _ (hvalue part.1 (List.mem_map_of_mem hpart))
  · rintro ⟨values, ⟨entries, rfl, hperm⟩, hobeyed⟩
    rw [List.forall₂_iff_zip] at hobeyed
    obtain ⟨hlength, hobeyed⟩ := hobeyed
    rw [h.accepts_object_dict_iff parts hv]
    have hentry : ∀ entry, entry ∈ entries ↔
        ∃ pair ∈ parts.zip values, (.text pair.1.1, pair.2) = entry := by
      intro entry
      rw [hperm.mem_iff, List.map_map, List.mem_map]
      rfl
    have hparts : ∀ pair ∈ parts.zip values, pair.1 ∈ parts :=
      fun pair hpair => (List.of_mem_zip hpair).1
    refine ⟨?_, ?_, ?_⟩
    · intro part hpart w hmem
      obtain ⟨pair, hpair, heq⟩ := (hentry _).mp hmem
      obtain ⟨hname, rfl⟩ := Prod.mk.inj heq
      have hsame := List.inj_on_of_nodup_map hnames (hparts pair hpair) hpart (Value.text.inj hname)
      rw [← hsame]
      exact hobeyed hpair
    · intro entry hmem
      obtain ⟨pair, hpair, rfl⟩ := (hentry _).mp hmem
      exact ⟨pair.1.1, List.mem_map_of_mem (hparts pair hpair), rfl⟩
    · intro name hname
      obtain ⟨part, hpart, rfl⟩ := List.mem_map.mp hname
      rw [← List.map_fst_zip hlength.le, List.mem_map] at hpart
      obtain ⟨pair, hpair, rfl⟩ := hpart
      exact ⟨pair.2, (hentry _).mpr ⟨pair, hpair, rfl⟩⟩

theorem accepts_array_iff (h : V.Standard Matches Obeys) (schema : List Keyword) {v : Value}
    (hv : v.IsDocument) : V.Accepts (.type .array :: schema) v ↔ ∃ items, v = .list items ∧
      ∀ keyword ∈ schema, Obeys (.type .array :: schema) keyword (.list items) := by
  rw [h.accepts hv, List.forall_mem_cons, h.type hv]
  constructor
  · rintro ⟨⟨items, rfl⟩, hschema⟩
    exact ⟨items, rfl, hschema⟩
  · rintro ⟨items, rfl, hschema⟩
    exact ⟨⟨items, rfl⟩, hschema⟩

/-- The schema of integers accepts the numbers that amount to one that is large enough. -/
theorem accepts_integerFrom_iff (h : V.Standard Matches Obeys) (least : Int) {v : Value}
    (hv : v.IsDocument) :
    V.Accepts (.integerFrom least) v ↔ ∃ n, least ≤ n ∧ v.AmountsTo n := by
  rw [h.accepts hv]
  conv_lhs => rw [Schema.integerFrom]
  simp only [List.forall_mem_cons, h.type hv, h.minimum hv]
  constructor
  · rintro ⟨⟨n, hn⟩, hleast, _⟩
    exact ⟨n, (hn.atLeast_iff least).mp hleast, hn⟩
  · rintro ⟨n, hleast, hn⟩
    exact ⟨⟨n, hn⟩, (hn.atLeast_iff least).mpr hleast, by simp⟩

theorem accepts_ints_iff (h : V.Standard Matches Obeys) (choices : List Nat) {v : Value}
    (hv : v.IsDocument) : V.Accepts [.enum (choices.map fun n : Nat => .int n)] v ↔
      ∃ n ∈ choices, v.AmountsTo n := by
  rw [h.accepts hv, List.forall_mem_singleton, h.enum hv]
  simp [Value.sameDocument_int_iff]

theorem accepts_texts_iff (h : V.Standard Matches Obeys) (choices : List String) {v : Value}
    (hv : v.IsDocument) :
    V.Accepts [.enum (choices.map .text)] v ↔ ∃ s ∈ choices, v = .text s := by
  rw [h.accepts hv, List.forall_mem_singleton, h.enum hv]
  simp [Value.sameDocument_text_iff]

end Validator.Standard

namespace Description

/-- A number that amounts to an integer that is large enough. -/
def IsCount (least : Int) (v : Value) : Prop := ∃ n, least ≤ n ∧ v.AmountsTo n

/-- The description of a field: its name, its width, and one or more different positions. -/
def IsField (IsName : String → Prop) (v : Value) : Prop :=
  ∃ name width items, ∃ positions : List Nat,
    v.Has [("name", .text name), ("width", width), ("positions", .list items)] ∧
    IsName name ∧ IsCount 1 width ∧ positions ≠ [] ∧ positions.Nodup ∧
    List.Forall₂ (fun item p => item.AmountsTo (p : Int)) items positions

/-- The description of the literals. -/
def IsLiteral (v : Value) : Prop :=
  ∃ mask value, v.Has [("mask", mask), ("value", value)] ∧ IsCount 0 mask ∧ IsCount 0 value

/-- The documents that conform to the schema, if the pattern of names is read in a given way. -/
def ConformsBy (IsName : String → Prop) (v : Value) : Prop :=
  ∃ width base fields literal placeholders,
    v.Has [("width", width), ("base", base), ("fields", .list fields), ("literal", literal),
      ("placeholder_mask", placeholders)] ∧
    (∃ w ∈ ([8, 16, 32, 64, 128] : List Nat), width.AmountsTo w) ∧
    (base = .text "binary" ∨ base = .text "hexadecimal") ∧
    (∀ field ∈ fields, IsField IsName field) ∧ IsLiteral literal ∧ IsCount 0 placeholders

/-- The documents that conform to the schema. The name of a field is a letter. -/
def Conforms (v : Value) : Prop := ConformsBy (fun s => ∃ a : Letter, s = a.text) v

section Standard

variable {V : Validator} {Matches : String → String → Prop}
  {Obeys : Schema → Keyword → Value → Prop}

theorem accepts_name_iff (h : V.Standard Matches Obeys) {v : Value} (hv : v.IsDocument) :
    V.Accepts [.type .string, .pattern Validator.letterPattern] v ↔
      ∃ s, v = .text s ∧ Matches Validator.letterPattern s := by
  rw [h.accepts hv]
  simp only [List.forall_mem_cons, h.type hv, h.pattern hv]
  constructor
  · rintro ⟨⟨s, rfl⟩, hpattern, _⟩
    exact ⟨s, rfl, hpattern s rfl⟩
  · rintro ⟨s, rfl, hs⟩
    exact ⟨⟨s, rfl⟩, fun _ heq => Value.text.inj heq ▸ hs, by simp⟩

/-- The schema of positions accepts the lists of one or more different natural numbers. -/
theorem accepts_positions_iff (h : V.Standard Matches Obeys) {v : Value} (hv : v.IsDocument) :
    V.Accepts [.type .array, .items (Schema.integerFrom 0), .minItems 1, .uniqueItems] v ↔
      ∃ items, v = .list items ∧ ∃ positions : List Nat, positions ≠ [] ∧ positions.Nodup ∧
        List.Forall₂ (fun item p => item.AmountsTo (p : Int)) items positions := by
  rw [h.accepts_array_iff _ hv]
  refine exists_congr fun items => and_congr_right ?_
  rintro rfl
  have hitems : ∀ x ∈ items, x.IsDocument := by
    cases hv with
    | list hitems => exact hitems
  simp only [List.forall_mem_cons, h.items hv, h.minItems hv, h.uniqueItems hv, Value.list.injEq,
    forall_eq']
  constructor
  · rintro ⟨haccepted, hsome, hdistinct, _⟩
    have hnatural : ∀ x ∈ items, ∃ p : Nat, x.AmountsTo (p : Int) := by
      intro x hx
      obtain ⟨n, hn, hamounts⟩ := (h.accepts_integerFrom_iff 0 (hitems x hx)).mp (haccepted x hx)
      exact ⟨n.toNat, by rwa [Int.toNat_of_nonneg hn]⟩
    choose! position hposition using hnatural
    have hpositions : List.Forall₂ (fun item p => item.AmountsTo (p : Int)) items
        (items.map position) := by
      rw [List.forall₂_map_right_iff, List.forall₂_same]
      exact hposition
    refine ⟨items.map position, ?_, (Value.pairwise_different_iff hpositions).mp hdistinct,
      hpositions⟩
    rw [ne_eq, List.map_eq_nil_iff]
    exact List.ne_nil_of_length_pos hsome
  · rintro ⟨positions, hne, hnodup, hpositions⟩
    have hnumbers : ∀ x ∈ items, ∃ n, 0 ≤ n ∧ x.AmountsTo n :=
      ((List.forall₂_and_left _ _).mp
        (hpositions.imp fun x p hp => ⟨⟨p, Int.natCast_nonneg p, hp⟩, hp⟩)).1
    refine ⟨?_, ?_, (Value.pairwise_different_iff hpositions).mpr hnodup, by simp⟩
    · exact fun x hx => (h.accepts_integerFrom_iff 0 (hitems x hx)).mpr (hnumbers x hx)
    · rw [hpositions.length_eq]
      exact List.length_pos_of_ne_nil hne

theorem accepts_field_iff (h : V.Standard Matches Obeys) {v : Value} (hv : v.IsDocument) :
    V.Accepts fieldSchema v ↔ IsField (Matches Validator.letterPattern) v := by
  rw [fieldSchema, h.accepts_object_iff (by decide) hv]
  constructor
  · rintro ⟨values, hhas, hvalues⟩
    simp only [List.forall₂_cons_left_iff, List.forall₂_nil_left_iff] at hvalues
    obtain ⟨name, _, hname, ⟨width, _, hwidth, ⟨positions, _, hpositions, rfl, rfl⟩, rfl⟩, rfl⟩ :=
      hvalues
    have hdocuments := hhas.isDocument hv
    obtain ⟨s, rfl, hs⟩ := (accepts_name_iff h (hdocuments ("name", name) (by simp))).mp hname
    obtain ⟨items, rfl, places, hne, hnodup, hitems⟩ :=
      (accepts_positions_iff h (hdocuments ("positions", positions) (by simp))).mp hpositions
    exact ⟨s, width, items, places, hhas, hs,
      (h.accepts_integerFrom_iff 1 (hdocuments ("width", width) (by simp))).mp hwidth, hne, hnodup,
      hitems⟩
  · rintro ⟨s, width, items, places, hhas, hs, hwidth, hne, hnodup, hitems⟩
    have hdocuments := hhas.isDocument hv
    exact ⟨[.text s, width, .list items], hhas,
      .cons ((accepts_name_iff h (hdocuments ("name", _) (by simp))).mpr ⟨s, rfl, hs⟩) <|
      .cons ((h.accepts_integerFrom_iff 1 (hdocuments ("width", _) (by simp))).mpr hwidth) <|
      .cons ((accepts_positions_iff h (hdocuments ("positions", _) (by simp))).mpr
        ⟨items, rfl, places, hne, hnodup, hitems⟩) .nil⟩

theorem accepts_literal_iff (h : V.Standard Matches Obeys) {v : Value} (hv : v.IsDocument) :
    V.Accepts literalSchema v ↔ IsLiteral v := by
  rw [literalSchema, h.accepts_object_iff (by decide) hv]
  constructor
  · rintro ⟨values, hhas, hvalues⟩
    simp only [List.forall₂_cons_left_iff, List.forall₂_nil_left_iff] at hvalues
    obtain ⟨mask, _, hmask, ⟨value, _, hvalue, rfl, rfl⟩, rfl⟩ := hvalues
    have hdocuments := hhas.isDocument hv
    exact ⟨mask, value, hhas,
      (h.accepts_integerFrom_iff 0 (hdocuments ("mask", mask) (by simp))).mp hmask,
      (h.accepts_integerFrom_iff 0 (hdocuments ("value", value) (by simp))).mp hvalue⟩
  · rintro ⟨mask, value, hhas, hmask, hvalue⟩
    have hdocuments := hhas.isDocument hv
    exact ⟨[mask, value], hhas,
      .cons ((h.accepts_integerFrom_iff 0 (hdocuments ("mask", mask) (by simp))).mpr hmask) <|
      .cons ((h.accepts_integerFrom_iff 0 (hdocuments ("value", value) (by simp))).mpr hvalue) .nil⟩

theorem accepts_fields_iff (h : V.Standard Matches Obeys) {v : Value} (hv : v.IsDocument) :
    V.Accepts [.type .array, .items fieldSchema] v ↔
      ∃ fields, v = .list fields ∧
        ∀ field ∈ fields, IsField (Matches Validator.letterPattern) field := by
  rw [h.accepts_array_iff _ hv]
  refine exists_congr fun fields => and_congr_right ?_
  rintro rfl
  rw [List.forall_mem_singleton, h.items hv]
  simp only [Value.list.injEq, forall_eq']
  cases hv with
  | list hfields =>
    exact forall₂_congr fun field hfield => accepts_field_iff h (hfields field hfield)

theorem accepts_base_iff (h : V.Standard Matches Obeys) {v : Value} (hv : v.IsDocument) :
    V.Accepts [.enum [.text Base.binary.adjective, .text Base.hexadecimal.adjective]] v ↔
      v = .text "binary" ∨ v = .text "hexadecimal" := by
  have hchoices := h.accepts_texts_iff [Base.binary.adjective, Base.hexadecimal.adjective] hv
  simpa [Base.adjective] using hchoices

/-- A validator that follows the laws of the keywords accepts the conforming documents alone. -/
theorem accepts_iff (h : V.Standard Matches Obeys) {v : Value} (hv : v.IsDocument) :
    V.Accepts schema v ↔ ConformsBy (Matches Validator.letterPattern) v := by
  rw [schema, h.accepts_object_iff (by decide) hv]
  constructor
  · rintro ⟨values, hhas, hvalues⟩
    simp only [List.forall₂_cons_left_iff, List.forall₂_nil_left_iff] at hvalues
    obtain ⟨width, _, hwidth, ⟨base, _, hbase, ⟨fields, _, hfields, ⟨literal, _, hliteral,
      ⟨placeholders, _, hplaceholders, rfl, rfl⟩, rfl⟩, rfl⟩, rfl⟩, rfl⟩ := hvalues
    have hdocuments := hhas.isDocument hv
    obtain ⟨items, rfl, hitems⟩ :=
      (accepts_fields_iff h (hdocuments ("fields", fields) (by simp))).mp hfields
    exact ⟨width, base, items, literal, placeholders, hhas,
      (h.accepts_ints_iff standardWidths (hdocuments ("width", width) (by simp))).mp hwidth,
      (accepts_base_iff h (hdocuments ("base", base) (by simp))).mp hbase, hitems,
      (accepts_literal_iff h (hdocuments ("literal", literal) (by simp))).mp hliteral,
      (h.accepts_integerFrom_iff 0
        (hdocuments ("placeholder_mask", placeholders) (by simp))).mp hplaceholders⟩
  · rintro ⟨width, base, items, literal, placeholders, hhas, hwidth, hbase, hitems, hliteral,
      hplaceholders⟩
    have hdocuments := hhas.isDocument hv
    exact ⟨[width, base, .list items, literal, placeholders], hhas,
      .cons ((h.accepts_ints_iff standardWidths (hdocuments ("width", width) (by simp))).mpr
        hwidth) <|
      .cons ((accepts_base_iff h (hdocuments ("base", base) (by simp))).mpr hbase) <|
      .cons ((accepts_fields_iff h (hdocuments ("fields", _) (by simp))).mpr
        ⟨items, rfl, hitems⟩) <|
      .cons ((accepts_literal_iff h (hdocuments ("literal", literal) (by simp))).mpr hliteral) <|
      .cons ((h.accepts_integerFrom_iff 0
        (hdocuments ("placeholder_mask", placeholders) (by simp))).mpr hplaceholders) .nil⟩

end Standard

theorem admits_schemaDocument (isMatch : String → String → Bool) :
    (Validator.ofMatch isMatch).admits schemaDocument = true := by
  change Dialect.keywordsConform .whole [] (_ :: _ :: _) = true
  rw [Dialect.keywordsConform_cons_of_none .whole [] (by decide) (by decide),
    Dialect.keywordsConform_cons_of_none .whole [] (by decide) (by decide),
    Dialect.keywordsConform_entries]

/-- Nothing is taken for a missing document, and then the schema itself is checked. -/
theorem checkBy_none (V : Validator) : checkBy V .none =
    if V.admits schemaDocument then .ok () else .error .invalidSchema := by
  change (Schema.checkBy V schemaDocument >>= fun _ => Except.ok []) >>= _ = _
  have hdocument : Schema.checkBy V schemaDocument =
      if V.admits schemaDocument then .ok () else .error .invalidSchema := rfl
  rw [hdocument]
  split <;> rfl

theorem checkBy_of_document (V : Validator) {v : Value} (hv : v.IsDocument) (hsome : v ≠ .none) :
    checkBy V v = V.evaluate schema v >>= fun violations =>
      if violations.isEmpty then .ok () else .error (.nonconforming violations) := by
  have hevaluate : evaluateBy V v = V.evaluate schema v := by
    unfold evaluateBy
    split
    · exact absurd rfl hsome
    · rw [hv.document?_eq]
  rw [checkBy, hevaluate]
  rfl

/-- The check of a document returns normally if there is none or it conforms, and reports violations
otherwise. -/
theorem check_iff_conforms (V : Validator) (Matches : String → String → Prop)
    (Obeys : Schema → Keyword → Value → Prop) (hstandard : V.Standard Matches Obeys)
    (hletter : ∀ s, Matches Validator.letterPattern s ↔ ∃ a : Letter, s = a.text)
    (hadmits : V.admits schemaDocument = true) (v : Value) (hv : v.IsDocument) :
    (checkBy V v = .ok () ↔ v = .none ∨ Conforms v) ∧
    ((∃ violations, violations ≠ [] ∧ checkBy V v = .error (.nonconforming violations)) ↔
      v ≠ .none ∧ ¬ Conforms v) := by
  by_cases hnone : v = .none
  · subst hnone
    rw [checkBy_none, if_pos hadmits]
    simp
  have hconforms : V.Accepts schema v ↔ Conforms v := by
    rw [accepts_iff hstandard hv, Conforms, show Matches Validator.letterPattern = _ from
      funext fun s => propext (hletter s)]
  obtain ⟨violations, hviolations⟩ := hstandard.settles schema hv
  rw [checkBy_of_document V hv hnone, hviolations, ok_bind, ← hconforms, Validator.Accepts,
    hviolations, Except.ok.injEq]
  cases violations with
  | nil => simp
  | cons x rest => simp [hnone]

/-- A reading of regular expressions that knows the pattern of names, and reads it as one letter. -/
def isLetterMatch (expression s : String) : Bool :=
  expression != Validator.letterPattern || (Letter.ofString? s).isSome

theorem isLetterMatch_iff (s : String) :
    isLetterMatch Validator.letterPattern s = true ↔ ∃ a : Letter, s = a.text := by
  rw [isLetterMatch, bne_self_eq_false, Bool.false_or, Option.isSome_iff_exists]
  constructor
  · rintro ⟨a, ha⟩
    exact ⟨a, (Letter.text_of_ofString? ha).symm⟩
  · rintro ⟨a, rfl⟩
    exact ⟨a, Letter.ofString?_text a⟩

/-- A description with its entries in reverse order, in which the second position of the only field
is left open. -/
def reversedSample (second : Value) : Value :=
  .dict [(.text "placeholder_mask", .real (.finite false 0)),
    (.text "literal", .dict [(.text "value", .int 0), (.text "mask", .int 3)]),
    (.text "fields", .list [.dict [(.text "positions", .list [.int 2, second]),
      (.text "width", .int 2), (.text "name", .text "a")]]),
    (.text "base", .text "binary"),
    (.text "width", .real (.finite false (8 * Double.one)))]

/-- Numbers may be written with a point, but then a position may not be given in both ways. -/
theorem check_iff_conforms_reversed :
    ((reversedSample (.real (.finite false 0))).IsDocument ∧
      checkBy (.ofMatch isLetterMatch) (reversedSample (.real (.finite false 0))) = .ok () ∧
      Conforms (reversedSample (.real (.finite false 0)))) ∧
    (reversedSample (.real (.finite false (2 * Double.one)))).IsDocument ∧
      (∃ violations, violations ≠ [] ∧
        checkBy (.ofMatch isLetterMatch) (reversedSample (.real (.finite false (2 * Double.one)))) =
          .error (.nonconforming violations)) ∧
      ¬ Conforms (reversedSample (.real (.finite false (2 * Double.one)))) := by
  have hdocument : ∀ units, (reversedSample (.real (.finite false units))).IsDocument := by
    intro units
    have hpositions : Value.IsDocument (.list [.int 2, .real (.finite false units)]) :=
      .list (by simp [Value.IsDocument.int, Value.IsDocument.real])
    have hfield : Value.IsDocument (.dict [(.text "positions", .list [.int 2, .real
        (.finite false units)]), (.text "width", .int 2), (.text "name", .text "a")]) :=
      .dict (by simp) (by simp [hpositions, Value.IsDocument.int, Value.IsDocument.text]) (by simp)
    have hliteral : Value.IsDocument (.dict [(.text "value", .int 0), (.text "mask", .int 3)]) :=
      .dict (by simp) (by simp [Value.IsDocument.int]) (by simp)
    have hfields := Value.IsDocument.list (List.forall_mem_singleton.mpr hfield)
    refine .dict (by simp) ?_ (by simp)
    simp [hliteral, hfields, Value.IsDocument.real, Value.IsDocument.text]
  have hcheck := check_iff_conforms (.ofMatch isLetterMatch) _ _
    (Validator.standard_ofMatch isLetterMatch) isLetterMatch_iff
    (admits_schemaDocument isLetterMatch)
  have haccepted : checkBy (.ofMatch isLetterMatch) (reversedSample (.real (.finite false 0))) =
      .ok () := rfl
  have hrefused : ∃ violations, violations ≠ [] ∧
      checkBy (.ofMatch isLetterMatch) (reversedSample (.real (.finite false (2 * Double.one)))) =
        .error (.nonconforming violations) := ⟨_, List.cons_ne_nil _ _, rfl⟩
  obtain ⟨hok, _⟩ := hcheck _ (hdocument 0)
  obtain ⟨_, herror⟩ := hcheck _ (hdocument (2 * Double.one))
  refine ⟨⟨hdocument _, haccepted, ?_⟩, hdocument _, hrefused, (herror.mp hrefused).2⟩
  rcases hok.mp haccepted with hnone | hconforms
  · cases hnone
  · exact hconforms

/-- Nothing does not conform, but the check takes it for a missing document and accepts it. -/
theorem check_accepts_nothing :
    Value.IsDocument .none ∧ check .none = .ok () ∧ ¬ Conforms .none := by
  refine ⟨.none, (checkBy_none .usual).trans (if_pos (admits_schemaDocument _)), ?_⟩
  rintro ⟨_, _, _, _, _, ⟨es, hdict, _⟩, _⟩
  cases hdict

end Description

end BitTemplate
