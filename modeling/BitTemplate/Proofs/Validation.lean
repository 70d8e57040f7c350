import BitTemplate.Document.Schema
import BitTemplate.Proofs.Documents

/-!
What is relied on of a validator. It settles every document, and what it accepts obeys every
keyword of the schema, where each keyword has its own law. The validators that are made here from a
reading of regular expressions follow these laws. A schema that is made of keywords is admitted
wherever it stands, whatever part of the dialect it is held to there.
-/
namespace BitTemplate

open Failure

def Kind.Includes (kind : Kind) (v : Value) : Prop :=
  match kind with
  | .object => ∃ entries, v = .dict entries
  | .array => ∃ items, v = .list items
  | .string => ∃ s, v = .text s
  | .integer => ∃ n, v.AmountsTo n

namespace Validator

def Accepts (V : Validator) (schema : Schema) (v : Value) : Prop := V.evaluate schema v = .ok []

/-- The validators that read schemas as their dialect says, under a reading of regular
expressions. Whether a document obeys a keyword may depend on the schema that it stands in, and
does so for `closed` alone. -/
structure Standard (V : Validator) (Matches : String → String → Prop)
    (Obeys : Schema → Keyword → Value → Prop) : Prop where
  settles (schema : Schema) {v : Value} : v.IsDocument →
    ∃ violations, V.evaluate schema v = .ok violations
  accepts {schema : Schema} {v : Value} : v.IsDocument →
    (V.Accepts schema v ↔ ∀ keyword ∈ schema, Obeys schema keyword v)
  type {schema : Schema} {kind : Kind} {v : Value} : v.IsDocument →
    (Obeys schema (.type kind) v ↔ kind.Includes v)
  enum {schema : Schema} {choices : List Value} {v : Value} : v.IsDocument →
    (Obeys schema (.enum choices) v ↔ ∃ choice ∈ choices, v.sameDocument choice = true)
  minimum {schema : Schema} {n : Int} {v : Value} : v.IsDocument →
    (Obeys schema (.minimum n) v ↔ v.AtLeast n)
  minItems {schema : Schema} {n : Nat} {v : Value} : v.IsDocument →
    (Obeys schema (.minItems n) v ↔ ∀ items, v = .list items → n ≤ items.length)
  uniqueItems {schema : Schema} {v : Value} : v.IsDocument →
    (Obeys schema .uniqueItems v ↔
      ∀ items, v = .list items → items.Pairwise fun x y => x.sameDocument y = false)
  pattern {schema : Schema} {expression : String} {v : Value} : v.IsDocument →
    (Obeys schema (.pattern expression) v ↔ ∀ s, v = .text s → Matches expression s)
  items {schema part : Schema} {v : Value} : v.IsDocument →
    (Obeys schema (.items part) v ↔ ∀ items, v = .list items → ∀ x ∈ items, V.Accepts part x)
  properties {schema : Schema} {parts : List (String × Schema)} {v : Value} : v.IsDocument →
    (Obeys schema (.properties parts) v ↔ ∀ entries, v = .dict entries →
      ∀ part ∈ parts, ∀ w, (.text part.1, w) ∈ entries → V.Accepts part.2 w)
  closed {schema : Schema} {v : Value} : v.IsDocument →
    (Obeys schema .closed v ↔ ∀ entries, v = .dict entries →
      ∀ entry ∈ entries, ∃ name ∈ Schema.propertyNames schema, entry.1 = .text name)
  required {schema : Schema} {names : List String} {v : Value} : v.IsDocument →
    (Obeys schema (.required names) v ↔ ∀ entries, v = .dict entries →
      ∀ name ∈ names, ∃ w, (.text name, w) ∈ entries)

end Validator

namespace Rule

theorem plain_eq_nil_iff (keyword : String) (holds : Value → Bool) (v : Value) :
    plain keyword holds v = [] ↔ holds v = true := by
  unfold plain
  split
  · rename_i h
    simp [h]
  · rename_i h
    simp [h]

theorem nested_eq_nil_iff (keyword : String) (below : Value → List Violation) (v : Value) :
    nested keyword below v = [] ↔ below v = [] := by
  unfold nested
  split
  · rename_i h
    simpa using h
  · rename_i h
    simpa using h

theorem type_eq_nil_iff (kind : Kind) {v : Value} (hv : v.IsDocument) :
    Rule.type kind v = [] ↔ kind.Includes v := by
  rw [Rule.type, plain_eq_nil_iff]
  cases kind with
  | object => cases hv <;> simp [Kind.includes, Kind.Includes]
  | array => cases hv <;> simp [Kind.includes, Kind.Includes]
  | string => cases hv <;> simp [Kind.includes, Kind.Includes]
  | integer =>
    cases hv with
    | int n => simp [Kind.includes, Kind.Includes, Value.amountsTo_int_iff]
    | real negative units => exact Value.isIntegral_iff negative units
    | _ => simp [Kind.includes, Kind.Includes, Value.AmountsTo]

theorem minimum_eq_nil_iff (n : Int) {v : Value} (hv : v.IsDocument) :
    minimum n v = [] ↔ v.AtLeast n := by
  rw [minimum, plain_eq_nil_iff]
  cases hv with
  | int m => simp [Value.AtLeast]
  | real negative units =>
    simp [Value.AtLeast, Double.compareInt?, compare_lt_iff_lt]
  | _ => simp [Value.AtLeast]

theorem minItems_eq_nil_iff (n : Nat) (v : Value) :
    minItems n v = [] ↔ ∀ items, v = .list items → n ≤ items.length := by
  rw [minItems, plain_eq_nil_iff]
  cases v <;> simp

theorem uniqueItems_eq_nil_iff (v : Value) : uniqueItems v = [] ↔
    ∀ items, v = .list items → items.Pairwise fun x y => x.sameDocument y = false := by
  rw [uniqueItems, plain_eq_nil_iff]
  cases v <;> simp [Value.distinctItems_iff]

theorem pattern_eq_nil_iff (isMatch : String → Bool) (v : Value) :
    pattern isMatch v = [] ↔ ∀ s, v = .text s → isMatch s = true := by
  rw [pattern, plain_eq_nil_iff]
  cases v <;> simp

theorem items_eq_nil_iff (rule : Rule) (v : Value) :
    Rule.items rule v = [] ↔ ∀ items, v = .list items → ∀ x ∈ items, rule x = [] := by
  rw [Rule.items, nested_eq_nil_iff]
  cases v with
  | list items =>
    rw [List.flatMap_eq_nil_iff]
    constructor
    · rintro h _ ⟨⟩ x hx
      obtain ⟨i, hi⟩ := List.getElem?_of_mem hx
      exact List.map_eq_nil_iff.mp (h (x, i) (List.mk_mem_zipIdx_iff_getElem?.mpr hi))
    · intro h pair hpair
      have hmem : pair.1 ∈ items :=
        List.mem_of_getElem? (List.mem_zipIdx_iff_getElem?.mp hpair)
      exact List.map_eq_nil_iff.mpr (h items rfl pair.1 hmem)
  | _ => simp

theorem properties_eq_nil_iff (rules : List (String × Rule)) {v : Value} (hv : v.IsDocument) :
    properties rules v = [] ↔ ∀ entries, v = .dict entries →
      ∀ r ∈ rules, ∀ w, (.text r.1, w) ∈ entries → r.2 w = [] := by
  rw [properties, nested_eq_nil_iff]
  cases hv with
  | @dict entries _ _ hdistinct =>
    simp only [List.flatMap_eq_nil_iff, Value.dict.injEq, forall_eq']
    refine forall₂_congr fun r _ => ?_
    cases hentry : Value.entry? r.1 entries with
    | none =>
      have habsent : ∀ w, (.text r.1, w) ∉ entries := by
        intro w hw
        rw [← Value.entry?_eq_some_iff hdistinct, hentry] at hw
        cases hw
      simp [habsent]
    | some w =>
      have honly : ∀ u, (.text r.1, u) ∈ entries ↔ u = w := by
        intro u
        rw [← Value.entry?_eq_some_iff hdistinct, hentry, Option.some.injEq, eq_comm]
      simp [honly]
  | _ => simp

theorem closed_eq_nil_iff (names : List String) (v : Value) :
    closed names v = [] ↔ ∀ entries, v = .dict entries →
      ∀ entry ∈ entries, ∃ name ∈ names, entry.1 = .text name := by
  rw [closed, plain_eq_nil_iff]
  cases v with
  | dict entries =>
    simp only [List.all_eq_true, List.any_eq_true, Value.sameDocument_text_iff, Value.dict.injEq,
      forall_eq']
  | _ => simp

theorem required_eq_nil_iff (names : List String) {v : Value} (hv : v.IsDocument) :
    required names v = [] ↔ ∀ entries, v = .dict entries →
      ∀ name ∈ names, ∃ w, (.text name, w) ∈ entries := by
  rw [required, plain_eq_nil_iff]
  cases hv with
  | @dict entries _ _ hdistinct =>
    simp only [List.all_eq_true, Option.isSome_iff_exists, Value.entry?_eq_some_iff hdistinct,
      Value.dict.injEq, forall_eq']
  | _ => simp

end Rule

namespace Schema

theorem rule_eq_nil_iff (isMatch : String → String → Bool) (names : List String) (schema : Schema)
    (v : Value) : Schema.rule isMatch names schema v = [] ↔
      ∀ keyword ∈ schema, keyword.rule isMatch names v = [] := by
  induction schema with
  | nil => simp [Schema.rule]
  | cons keyword rest ih => rw [Schema.rule, List.append_eq_nil_iff, ih, List.forall_mem_cons]

theorem partRules_eq (isMatch : String → String → Bool) (parts : List (String × Schema)) :
    Schema.partRules isMatch parts =
      parts.map fun part => (part.1, Schema.rule isMatch (propertyNames part.2) part.2) := by
  induction parts with
  | nil => rfl
  | cons part rest ih => rw [partRules, ih, List.map_cons]

end Schema

mutual

/-- Where a schema asks for integers in a document, there are documents. -/
theorem Keyword.isDocument_of_mem_integers {v x : Value} (hv : v.IsDocument) :
    ∀ keyword : Keyword, x ∈ keyword.integers v → x.IsDocument
  | .type kind, hx => by
    rw [Keyword.integers] at hx
    split at hx
    · rwa [List.mem_singleton.mp hx]
    · cases hx
  | .items schema, hx => by
    rw [Keyword.integers, List.mem_flatMap] at hx
    obtain ⟨item, hitem, hx⟩ := hx
    cases hv with
    | list hitems => exact Schema.isDocument_of_mem_integers (hitems item hitem) schema hx
    | _ => cases hitem
  | .properties parts, hx => by
    rw [Keyword.integers, List.mem_flatMap] at hx
    obtain ⟨entry, hentry, hx⟩ := hx
    cases hv with
    | dict _ hvalues _ =>
      exact Schema.isDocument_of_mem_partIntegers (hvalues entry hentry) parts hx
    | _ => cases hentry
  | .enum _, hx | .minimum _, hx | .minItems _, hx | .uniqueItems, hx | .pattern _, hx
  | .closed, hx | .required _, hx => by
    rw [Keyword.integers] at hx
    · cases hx
    all_goals simp

theorem Schema.isDocument_of_mem_integers {v x : Value} (hv : v.IsDocument) :
    ∀ schema : List Keyword, x ∈ Schema.integers schema v → x.IsDocument
  | [], hx => by
    rw [Schema.integers] at hx
    cases hx
  | keyword :: rest, hx => by
    rw [Schema.integers, List.mem_append] at hx
    rcases hx with hx | hx
    · exact Keyword.isDocument_of_mem_integers hv keyword hx
    · exact Schema.isDocument_of_mem_integers hv rest hx

theorem Schema.isDocument_of_mem_partIntegers {key v x : Value} (hv : v.IsDocument) :
    ∀ parts : List (String × List Keyword), x ∈ Schema.partIntegers parts key v → x.IsDocument
  | [], hx => by
    rw [Schema.partIntegers] at hx
    cases hx
  | (name, schema) :: rest, hx => by
    simp only [Schema.partIntegers] at hx
    split at hx
    · exact Schema.isDocument_of_mem_integers hv schema hx
    · exact Schema.isDocument_of_mem_partIntegers hv rest hx

end

namespace Validator

theorem checkFinite_of_documents {items : List Value} (h : ∀ v ∈ items, v.IsDocument) :
    checkFinite items = .ok () := by
  induction items with
  | nil => rfl
  | cons v rest ih =>
    rw [List.forall_mem_cons] at h
    obtain ⟨hv, hrest⟩ := h
    cases hv <;> exact ih hrest

theorem evaluate_ofMatch (isMatch : String → String → Bool) (schema : Schema) {v : Value}
    (hv : v.IsDocument) : (ofMatch isMatch).evaluate schema v =
      .ok (Schema.rule isMatch (Schema.propertyNames schema) schema v) := by
  have hfinite : checkFinite (Schema.integers schema v) = .ok () :=
    checkFinite_of_documents fun x hx => Schema.isDocument_of_mem_integers hv schema hx
  change (checkFinite (Schema.integers schema v) >>= fun _ => _) = _
  rw [hfinite, ok_bind]
  rfl

theorem accepts_ofMatch_iff (isMatch : String → String → Bool) (schema : Schema) {v : Value}
    (hv : v.IsDocument) : (ofMatch isMatch).Accepts schema v ↔
      Schema.rule isMatch (Schema.propertyNames schema) schema v = [] := by
  rw [Accepts, evaluate_ofMatch isMatch schema hv, Except.ok.injEq]

/-- The validators that are made from a reading of regular expressions follow the laws. -/
theorem standard_ofMatch (isMatch : String → String → Bool) :
    (ofMatch isMatch).Standard (fun expression s => isMatch expression s = true)
      fun schema keyword v => keyword.rule isMatch (Schema.propertyNames schema) v = [] where
  settles schema _ hv := ⟨_, evaluate_ofMatch isMatch schema hv⟩
  accepts hv := by rw [accepts_ofMatch_iff isMatch _ hv, Schema.rule_eq_nil_iff]
  type hv := by rw [Keyword.rule, Rule.type_eq_nil_iff _ hv]
  enum _ := by rw [Keyword.rule, Rule.enum, Rule.plain_eq_nil_iff, List.any_eq_true]
  minimum hv := by rw [Keyword.rule, Rule.minimum_eq_nil_iff _ hv]
  minItems _ := by rw [Keyword.rule, Rule.minItems_eq_nil_iff]
  uniqueItems _ := by rw [Keyword.rule, Rule.uniqueItems_eq_nil_iff]
  pattern _ := by rw [Keyword.rule, Rule.pattern_eq_nil_iff]
  items hv := by
    rw [Keyword.rule, Rule.items_eq_nil_iff]
    refine forall₂_congr fun items hlist => ?_
    subst hlist
    cases hv with
    | list hitems =>
      exact forall₂_congr fun x hx => (accepts_ofMatch_iff isMatch _ (hitems x hx)).symm
  properties hv := by
    rw [Keyword.rule, Rule.properties_eq_nil_iff _ hv, Schema.partRules_eq]
    refine forall₂_congr fun entries hdict => ?_
    subst hdict
    cases hv with
    | dict _ hvalues _ =>
      rw [List.forall_mem_map]
      refine forall₂_congr fun part _ => forall₂_congr fun w hw => ?_
      exact (accepts_ofMatch_iff isMatch _ (hvalues _ hw)).symm
  closed _ := by rw [Keyword.rule, Rule.closed_eq_nil_iff]
  required hv := by rw [Keyword.rule, Rule.required_eq_nil_iff _ hv]

end Validator

namespace Dialect

theorem holder?_items : holder? "items" = some (.applicator, .single) := by decide

theorem holder?_properties : holder? "properties" = some (.applicator, .named) := by decide

theorem isType_name (kind : Kind) : isType (.text kind.name) = true := by
  cases kind <;> decide

/-- A keyword that holds no schemas and is not a type is admitted whatever stands there. -/
theorem keywordsConform_cons_of_none (held : Part) (scope : Scope) {keyword : String}
    (htype : keyword ≠ "type") (h : holder? keyword = none) (v : Value)
    (rest : List (Value × Value)) :
    keywordsConform held scope ((.text keyword, v) :: rest) = keywordsConform held scope rest := by
  rw [keywordsConform, if_neg htype, h, Bool.true_and]

mutual

/-- A keyword conforms to every part of the dialect, wherever its schema stands. -/
theorem keywordsConform_entry (held : Part) (scope : Scope) (rest : List (Value × Value)) :
    ∀ keyword : Keyword,
      keywordsConform held scope (keyword.entry :: rest) = keywordsConform held scope rest
  | .type kind => by
    rw [Keyword.entry, keywordsConform, if_pos rfl, isType_name, Bool.or_true, Bool.true_and]
  | .items schema => by
    rw [Keyword.entry, keywordsConform, if_neg (by decide), holder?_items]
    simp only [conforms, keywordsConform_entries _ _ schema, Bool.or_true, Bool.true_and]
  | .properties parts => by
    rw [Keyword.entry, keywordsConform, if_neg (by decide), holder?_properties]
    simp only [entriesConform_partEntries _ parts, Bool.or_true, Bool.true_and]
  | .closed => by
    rw [Keyword.entry, keywordsConform, if_neg (by decide),
      show holder? "additionalProperties" = some (.applicator, .single) by decide]
    simp only [conforms, Bool.or_true, Bool.true_and]
  | .enum _ | .minimum _ | .minItems _ | .uniqueItems | .pattern _ | .required _ => by
    rw [Keyword.entry]
    exact keywordsConform_cons_of_none held scope (by decide) (by decide) _ rest

theorem keywordsConform_entries (held : Part) (scope : Scope) :
    ∀ schema : List Keyword, keywordsConform held scope (Schema.entries schema) = true
  | [] => rfl
  | keyword :: rest => by
    rw [Schema.entries, keywordsConform_entry held scope _ keyword,
      keywordsConform_entries held scope rest]

theorem entriesConform_partEntries (scope : Scope) :
    ∀ parts : List (String × List Keyword),
      entriesConform scope (Schema.partEntries parts) = true
  | [] => rfl
  | (name, schema) :: rest => by
    rw [Schema.partEntries, entriesConform, conforms, keywordsConform_entries _ _ schema,
      entriesConform_partEntries scope rest, Bool.true_and]

end

/-- A type that does not exist is refused in every schema that is held to the whole dialect. -/
theorem isType_of_keywordsConform {scope : Scope} {entries : List (Value × Value)} {v : Value}
    (h : keywordsConform .whole scope entries = true) (hmem : (.text "type", v) ∈ entries) :
    isType v = true := by
  induction entries with
  | nil => cases hmem
  | cons entry rest ih =>
    rcases List.mem_cons.mp hmem with rfl | hrest
    · rw [keywordsConform, Bool.and_eq_true] at h
      simpa using h.1
    · obtain ⟨key, w⟩ := entry
      refine ih ?_ hrest
      cases key with
      | text keyword =>
        rw [keywordsConform, Bool.and_eq_true] at h
        exact h.2
      | _ => rwa [keywordsConform] at h; simp

end Dialect

end BitTemplate
