import BitTemplate.Proofs.Items
import BitTemplate.Proofs.Scope
import Mathlib.Data.List.Nodup
import Mathlib.Data.List.Perm.Lattice

/-!
What the functions of a module look up when they are called. They look up what they call, and so
does the code of the module that they reach: refusing a value looks up the error, and making the
error looks up `super`. A name stands for the last thing that the module defines under it, or else
for what the language has. The language's own names are taken when a function is defined, from
`__builtins__`, if the module has defined that by then. Names are the same if they have the same
form, which need not be how they are written.

So a function finds what it is meant to find exactly if no name that comes between has the form of
what it looks up. If all names are written in their form, only two can come between: `super`, and
`__builtins__` of an earlier item, since neither is reserved.
-/
namespace BitTemplate

open Failure Program

namespace Text

def isAscii (s : String) : Bool := s.toList.all fun c => c.toNat < 128

/-- What names may be compared by: after any text, characters of ASCII stand for themselves. -/
structure IsForm (form : String → String) : Prop where
  empty : form "" = ""
  append : ∀ s t, isAscii t → form (s ++ t) = form s ++ t

theorem IsForm.of_isAscii {form : String → String} (h : IsForm form) {s : String}
    (hs : isAscii s) : form s = s := by
  have happend := h.append "" s hs
  rwa [String.empty_append, h.empty, String.empty_append] at happend

def narrowChar (c : Char) : Char :=
  if 0xff01 ≤ c.toNat ∧ c.toNat ≤ 0xff5e then Char.ofNat (c.toNat - 0xfee0) else c

/-- A text with narrow characters for the wide ones of ASCII. -/
def narrow (s : String) : String := String.ofList (s.toList.map narrowChar)

theorem isForm_narrow : IsForm narrow where
  empty := rfl
  append s t ht := by
    rw [isAscii, List.all_eq_true] at ht
    have hkept : t.toList.map narrowChar = t.toList := by
      refine (List.map_congr_left fun c hc => ?_).trans (List.map_id t.toList)
      have hc : c.toNat < 128 := by simpa using ht c hc
      exact if_neg (by omega)
    rw [narrow, String.toList_append, List.map_append, hkept, String.ofList_append,
      String.ofList_toList]
    rfl

end Text

theorem Program.Name.isAscii_text (x : Name) : Text.isAscii x.text := by
  have hdigits (n : Nat) : ∀ c ∈ (Text.decimalNat n).toList, c.toNat < 128 := fun c hc =>
    Text.toNat_of_isAlphanum (by simp [Char.isAlphanum, Text.isDigit_of_mem_decimalNat hc])
  cases x with
  | value => rfl
  | target => rfl
  | letter a =>
    have ha : a.char.toNat < 128 :=
      Text.toNat_of_isAlphanum (by simp [Char.isAlphanum, a.isAlpha])
    simpa [text, Text.isAscii, Letter.text] using ha
  | input index => simpa [text, Text.isAscii] using hdigits index
  | saturated index => simpa [text, Text.isAscii] using hdigits index

namespace Operation

theorem Made.record?_of_function {op : Operation} (hmade : op.Made) {name : String} {f : Function}
    (h : op.function name ((op.record? name).map Prod.fst) = .ok f) :
    f.result.record? = (op.record? name).map Prod.fst := by
  refine hmade.record?_eq h ?_
  cases op with
  | extraction x => exact .inr ⟨x, rfl⟩
  | combination _ => exact .inl rfl
  | replacement _ => exact .inl rfl
  | transfer _ => exact .inl rfl

/-- A function that makes a record has no variable but the value that it reads. -/
theorem Made.bound_of_record {op : Operation} (hmade : op.Made) {name : String}
    {record : Option String} {f : Function} (h : op.function name record = .ok f) {r : String}
    (hr : f.result.record? = some r) : f.bound = [.value] := by
  cases hmade with
  | extraction _ =>
    obtain ⟨_, hbound, _⟩ := closed_extraction h
    exact hbound
  | combination _ =>
    rw [(closed_combination h).2] at hr
    cases hr
  | replacement _ =>
    rw [(closed_replacement h).2] at hr
    cases hr
  | transfer ht =>
    rw [(closed_transfer (Transfer.slots_of_make ht).2.2 h).2] at hr
    cases hr

end Operation

namespace Module

/-- What a module defines. -/
inductive Entity where
  | library
  | error
  | raiser
  | record (name : String) (fields : List Letter)
  | function (f : Function)

def Entity.name : Entity → String
  | .library => "collections"
  | .error => "FieldOverflowError"
  | .raiser => "overflow"
  | .record name _ => name
  | .function f => f.name

/-- What a module defines of its own: the library of its records, the error, and the function that
raises it. -/
def own (m : Module) : List Entity :=
  (if m.records.isEmpty then [] else [.library]) ++ [.error, .raiser]

def recordEntities (m : Module) : List Entity := m.records.map fun r => .record r.1 r.2

/-- What a module defines for its items. -/
def added (m : Module) : List Entity := m.recordEntities ++ m.functions.map .function

/-- All definitions in the order of the text. -/
def entities (m : Module) : List Entity := m.own ++ m.added

/-- What is defined before the code of a name, and so has its effect on the code. -/
def earlier (m : Module) (reader : String) : List Entity :=
  m.entities.takeWhile fun x => x.name ≠ reader

/-- What is defined after a name, and so may take its place. -/
def later (m : Module) (g : String) : List Entity :=
  (m.entities.dropWhile fun x => x.name ≠ g).tail

/-- What a name stands for: something that the module defines, what the language has, or what is
found under the name within something that has taken the place of the language's names. -/
inductive Meaning where
  | defined (x : Entity)
  | language
  | within (x : Entity)

/-- The last definition under a name, where names of the same form are the same. -/
def latest (form : String → String) (entities : List Entity) (g : String) : Option Entity :=
  entities.reverse.find? fun x => form x.name = form g

/-- What the code of a name finds under another name. -/
def finds (m : Module) (form : String → String) (reader g : String) : Meaning :=
  match latest form m.entities g with
  | some x => .defined x
  | none =>
    match latest form (m.earlier reader) "__builtins__" with
    | some x => .within x
    | none => .language

/-- What a name is meant to stand for. No code is meant to call the function of an item. -/
def meant (m : Module) (g : String) : Meaning :=
  match (m.own ++ m.recordEntities).find? fun x => x.name = g with
  | some x => .defined x
  | none => .language

theorem latest_eq_none_iff {form : String → String} {entities : List Entity} {g : String} :
    latest form entities g = none ↔ ∀ x ∈ entities, form x.name ≠ form g := by
  simp [latest]

/-- A definition is the last one under its name if none of the same form comes after it. -/
theorem latest_append_cons_iff {form : String → String} {before after : List Entity} {x : Entity}
    (hx : x ∉ after) : latest form (before ++ x :: after) x.name = some x ↔
      ∀ y ∈ after, form y.name ≠ form x.name := by
  have hreverse : (before ++ x :: after).reverse = after.reverse ++ x :: before.reverse := by simp
  rw [latest, hreverse, List.find?_append]
  constructor
  · intro h y hy heq
    obtain ⟨z, hz⟩ : ∃ z, after.reverse.find? (fun z => form z.name = form x.name) = some z := by
      rw [← Option.isSome_iff_exists, List.find?_isSome]
      exact ⟨y, List.mem_reverse.mpr hy, by simpa using heq⟩
    rw [hz, Option.some_or, Option.some.injEq] at h
    have hmem := List.mem_of_find?_eq_some hz
    rw [h, List.mem_reverse] at hmem
    exact hx hmem
  · intro h
    have hnone : after.reverse.find? (fun z => form z.name = form x.name) = none := by
      simpa using h
    rw [hnone, Option.none_or, List.find?_cons_of_pos (by simp)]

theorem finds_eq_defined_iff {m : Module} {form : String → String} {reader g : String}
    {x : Entity} : m.finds form reader g = .defined x ↔ latest form m.entities g = some x := by
  unfold finds
  cases latest form m.entities g with
  | some y => simp
  | none => cases latest form (m.earlier reader) "__builtins__" <;> simp

theorem finds_eq_language_iff {m : Module} {form : String → String} {reader g : String} :
    m.finds form reader g = .language ↔ (∀ x ∈ m.entities, form x.name ≠ form g) ∧
      ∀ x ∈ m.earlier reader, form x.name ≠ form "__builtins__" := by
  rw [← latest_eq_none_iff, ← latest_eq_none_iff]
  unfold finds
  cases latest form m.entities g with
  | some y => simp
  | none => cases latest form (m.earlier reader) "__builtins__" <;> simp

theorem mem_of_meant {m : Module} {g : String} {x : Entity} (h : m.meant g = .defined x) :
    x ∈ m.entities ∧ x.name = g := by
  unfold meant at h
  split at h
  · rename_i y hy
    cases h
    rw [entities, added, ← List.append_assoc]
    exact ⟨List.mem_append_left _ (List.mem_of_find?_eq_some hy), by simpa using List.find?_some hy⟩
  · cases h

theorem meant_eq_language_iff {m : Module} {g : String} :
    m.meant g = .language ↔ ∀ x ∈ m.own ++ m.recordEntities, x.name ≠ g := by
  unfold meant
  cases hfind : (m.own ++ m.recordEntities).find? fun x => x.name = g with
  | some y =>
    refine iff_of_false nofun fun h => ?_
    exact h y (List.mem_of_find?_eq_some hfind) (by simpa using List.find?_some hfind)
  | none => simpa [or_imp, forall_and] using hfind

theorem sublist_own (m : Module) :
    (m.own.map Entity.name).Sublist ["collections", "FieldOverflowError", "overflow"] := by
  unfold own
  split
  · exact List.sublist_cons_self ..
  · exact .refl _

theorem name_mem_reserved {m : Module} {x : Entity} (h : x ∈ m.own) : x.name ∈ reserved :=
  List.mem_append_left ["min"] (m.sublist_own.subset (List.mem_map_of_mem h))

theorem isAscii_of_mem_reserved {n : String} (h : n ∈ reserved) : Text.isAscii n := by
  simp only [reserved, List.mem_cons, List.not_mem_nil, or_false] at h
  rcases h with rfl | rfl | rfl | rfl <;> rfl

/-- No name of the module itself has the form of a name that is not reserved. -/
theorem form_own_ne {form : String → String} (hform : Text.IsForm form) {m : Module} {x : Entity}
    (hx : x ∈ m.own) {g : String} (hascii : Text.isAscii g) (hg : g ∉ m.own.map Entity.name) :
    form x.name ≠ form g := by
  rw [hform.of_isAscii (isAscii_of_mem_reserved (name_mem_reserved hx)), hform.of_isAscii hascii]
  rintro rfl
  exact hg (List.mem_map_of_mem hx)

theorem Entry.Valid.name_code {e : Entry} (h : e.Valid) : e.code.name = e.name :=
  Operation.name_of_function h.code

theorem recordName_ne (name : String) {n : String} (h : n.toList.getLast? ≠ some 's') :
    recordName name ≠ n := by
  rintro rfl
  simp [recordName] at h

theorem form_recordName {form : String → String} (hform : Text.IsForm form) (name : String) :
    form (recordName name) = recordName (form name) :=
  hform.append name "_Fields" rfl

theorem meant_eq_language {entries : List Entry} {g : String}
    (hown : g ∉ (ofEntries entries).own.map Entity.name)
    (hrecord : ∀ name, recordName name ≠ g) : (ofEntries entries).meant g = .language := by
  refine meant_eq_language_iff.mpr fun x hx => ?_
  rcases List.mem_append.mp hx with hx | hx
  · rintro rfl
    exact hown (List.mem_map_of_mem hx)
  · obtain ⟨r, hr, rfl⟩ := List.mem_map.mp hx
    obtain ⟨e, _, hr⟩ := List.mem_flatMap.mp hr
    have hname : r.1 = recordName e.name := Operation.name_of_record? (Option.mem_toList.mp hr)
    exact hname ▸ hrecord e.name

/-- The language's names cannot be replaced before the error is defined. -/
theorem name_of_mem_earlier_error {m : Module} {x : Entity}
    (h : x ∈ m.earlier "FieldOverflowError") : x.name ≠ "__builtins__" := by
  unfold earlier entities own at h
  split at h
  · simp [Entity.name] at h
  · have hx : x = .library := by simpa [Entity.name] using h
    rw [hx]
    decide

section Entries

variable {entries : List Entry} (h : Apart entries)

include h

theorem notMem_reserved {n : String} (hn : n ∈ (ofEntries entries).defined) : n ∉ reserved := by
  obtain ⟨e, he, hn⟩ := List.mem_flatMap.mp hn
  exact ((h.valid e he).free n hn).2

/-- The items' definitions have the names that are defined. -/
theorem map_name_added :
    ((ofEntries entries).added.map Entity.name).Perm (ofEntries entries).defined := by
  have hrecords : (ofEntries entries).recordEntities.map Entity.name =
      entries.flatMap fun e => (e.record?.map Prod.fst).toList := by
    simp only [recordEntities, ofEntries, List.map_map, List.map_flatMap]
    refine List.flatMap_congr fun e _ => ?_
    cases e.record? <;> rfl
  have hfunctions : ((ofEntries entries).functions.map Entity.function).map Entity.name =
      entries.flatMap fun e => [e.name] := by
    rw [← List.map_eq_flatMap, ofEntries, List.map_map, List.map_map]
    exact List.map_congr_left fun e he => (h.valid e he).name_code
  rw [added, List.map_append, hrecords, hfunctions]
  exact List.perm_append_comm.trans (List.flatMap_append_perm entries _ _)

theorem mem_defined_iff {n : String} :
    n ∈ (ofEntries entries).defined ↔ ∃ x ∈ (ofEntries entries).added, x.name = n := by
  rw [← (map_name_added h).mem_iff, List.mem_map]

theorem nodup_names : ((ofEntries entries).entities.map Entity.name).Nodup := by
  have hdefined : (ofEntries entries).defined.Nodup :=
    List.nodup_flatMap.mpr ⟨fun e he => (h.valid e he).nodup, h.disjoint⟩
  rw [entities, List.map_append, List.nodup_append]
  refine ⟨(sublist_own _).nodup (by decide), (map_name_added h).nodup_iff.mpr hdefined, ?_⟩
  rintro n hn _ hadded rfl
  obtain ⟨x, hx, rfl⟩ := List.mem_map.mp hn
  exact notMem_reserved h ((map_name_added h).mem_iff.mp hadded) (name_mem_reserved hx)

/-- Every definition parts the others into what comes before and what comes after it. -/
theorem exists_split {x : Entity} (hx : x ∈ (ofEntries entries).entities) :
    ∃ before after, (ofEntries entries).entities = before ++ x :: after ∧
      (ofEntries entries).later x.name = after ∧ ∀ y ∈ after, y.name ≠ x.name := by
  obtain ⟨before, after, hsplit⟩ := List.append_of_mem hx
  have hnodup := nodup_names h
  rw [hsplit, List.map_append, List.map_cons, List.nodup_append] at hnodup
  obtain ⟨_, hafter, hbefore⟩ := hnodup
  refine ⟨before, after, hsplit, ?_, ?_⟩
  · have hpos : ∀ y ∈ before, decide (y.name ≠ x.name) = true := fun y hy =>
      decide_eq_true (hbefore _ (List.mem_map_of_mem hy) _ List.mem_cons_self)
    rw [later, hsplit, List.dropWhile_append_of_pos hpos, List.dropWhile_cons_of_neg (by simp),
      List.tail_cons]
  · intro y hy heq
    exact (List.nodup_cons.mp hafter).1 (heq ▸ List.mem_map_of_mem hy)

/-- What is meant by a name of the module itself or by a record is found if nothing that comes later
takes its place. -/
theorem finds_defined_iff {form : String → String} {reader g : String} {x : Entity}
    (hmeant : (ofEntries entries).meant g = .defined x) :
    (ofEntries entries).finds form reader g = .defined x ↔
      ∀ y ∈ (ofEntries entries).later g, form y.name ≠ form g := by
  obtain ⟨hx, rfl⟩ := mem_of_meant hmeant
  obtain ⟨before, after, hsplit, hlater, hafter⟩ := exists_split h hx
  rw [finds_eq_defined_iff, hsplit, hlater]
  exact latest_append_cons_iff fun hx => hafter x hx rfl

theorem finds_language_iff {form : String → String} (hform : Text.IsForm form) {reader g : String}
    (hascii : Text.isAscii g) (hmeant : (ofEntries entries).meant g = .language) :
    (ofEntries entries).finds form reader g = .language ↔
      (∀ n ∈ (ofEntries entries).defined, form n ≠ g) ∧
        ∀ x ∈ (ofEntries entries).earlier reader, form x.name ≠ "__builtins__" := by
  have hown : g ∉ (ofEntries entries).own.map Entity.name := by
    intro hg
    obtain ⟨x, hx, rfl⟩ := List.mem_map.mp hg
    exact meant_eq_language_iff.mp hmeant x (List.mem_append_left _ hx) rfl
  have hall : (∀ x ∈ (ofEntries entries).entities, form x.name ≠ form g) ↔
      ∀ n ∈ (ofEntries entries).defined, form n ≠ g := by
    rw [hform.of_isAscii hascii]
    constructor
    · intro hall n hn
      obtain ⟨x, hx, rfl⟩ := (mem_defined_iff h).mp hn
      exact hall x (List.mem_append_right _ hx)
    · intro hall x hx
      rcases List.mem_append.mp hx with hx | hx
      · rw [← hform.of_isAscii hascii]
        exact form_own_ne hform hx hascii hown
      · exact hall x.name ((mem_defined_iff h).mpr ⟨x, hx, rfl⟩)
  have hbuiltins : form "__builtins__" = "__builtins__" := hform.of_isAscii rfl
  rw [finds_eq_language_iff, hall, hbuiltins]

theorem meant_of_mem {x : Entity}
    (hx : x ∈ (ofEntries entries).own ++ (ofEntries entries).recordEntities) :
    (ofEntries entries).meant x.name = .defined x := by
  have hnodup := nodup_names h
  rw [entities, added, ← List.append_assoc, List.map_append] at hnodup
  have hfind := (find?_eq_some_iff_of_nodup hnodup.of_append_left
    (fun y => decide_eq_true_iff (p := y.name = x.name)) x).mpr ⟨hx, rfl⟩
  rw [meant, hfind]

/-- What the names mean that functions and the code of the module look up. -/
theorem meant_preamble :
    (ofEntries entries).meant "overflow" = .defined .raiser ∧
      (ofEntries entries).meant "FieldOverflowError" = .defined .error ∧
      (ofEntries entries).meant "min" = .language ∧
      (ofEntries entries).meant "super" = .language := by
  have hown {g : String} (hg : g ∉ ["collections", "FieldOverflowError", "overflow"]) :
      g ∉ (ofEntries entries).own.map Entity.name := fun hmem => hg ((sublist_own _).subset hmem)
  refine ⟨?_, ?_, ?_, ?_⟩
  · exact meant_of_mem h (x := .raiser) (by simp [own])
  · exact meant_of_mem h (x := .error) (by simp [own])
  · exact meant_eq_language (hown (by decide)) fun name => recordName_ne name (by decide)
  · exact meant_eq_language (hown (by decide)) fun name => recordName_ne name (by decide)

end Entries

/-- What the code of the module itself looks up when it is called: first the name that is called,
then the name that is looked up. -/
def ownLookups : List (String × String) :=
  [("overflow", "FieldOverflowError"), ("FieldOverflowError", "super")]

/-- Where a function of a module is called and all names are found as meant, these are the names
that are looked up, each by the code of the name that stands before it. -/
inductive Reads (f : Function) : String → String → Prop
  | body {g : String} (h : g ∈ f.globals) : Reads f f.name g
  | own {reader g g' : String} (h : Reads f reader g) (hg : (g, g') ∈ ownLookups) : Reads f g g'

theorem reads_iff {f : Function} (h : "FieldOverflowError" ∉ f.globals) {reader g : String} :
    Reads f reader g ↔ reader = f.name ∧ g ∈ f.globals ∨
      "overflow" ∈ f.globals ∧ (reader, g) ∈ ownLookups := by
  constructor
  · intro hg
    induction hg with
    | body hg => exact .inl ⟨rfl, hg⟩
    | own _ hown ih =>
      refine .inr ⟨?_, hown⟩
      rcases ih with ⟨_, hg⟩ | ⟨hoverflow, _⟩
      · simp only [ownLookups, List.mem_cons, Prod.mk.injEq, List.not_mem_nil, or_false] at hown
        rcases hown with ⟨rfl, rfl⟩ | ⟨rfl, rfl⟩
        · exact hg
        · exact absurd hg h
      · exact hoverflow
  · rintro (⟨rfl, hg⟩ | ⟨hoverflow, hown⟩)
    · exact .body hg
    · have herror : Reads f "overflow" "FieldOverflowError" := .own (.body hoverflow) (by decide)
      simp only [ownLookups, List.mem_cons, Prod.mk.injEq, List.not_mem_nil, or_false] at hown
      rcases hown with ⟨rfl, rfl⟩ | ⟨rfl, rfl⟩
      · exact herror
      · exact .own herror (by decide)

namespace Entry

variable {e : Entry} (h : e.Valid) (hmade : e.op.Made)

include h hmade

theorem record?_code : e.code.result.record? = e.record?.map Prod.fst :=
  hmade.record?_of_function h.code

theorem name_of_record {r : String} (hr : e.code.result.record? = some r) :
    r = recordName e.code.name := by
  rw [record?_code h hmade] at hr
  obtain ⟨record, hrecord, rfl⟩ := Option.map_eq_some_iff.mp hr
  rw [h.name_code]
  exact Operation.name_of_record? hrecord

theorem mem_globals_iff {g : String} : g ∈ e.code.globals ↔ g ∈ e.code.calls := by
  obtain ⟨hname, hrecord⟩ := forall_mem_names.mp h.free
  refine hmade.mem_globals_iff (fun r hr => ⟨(hrecord r hr).1, ?_⟩) h.code ?_
  · obtain ⟨r, hsome, rfl⟩ := Option.map_eq_some_iff.mp hr
    rw [Operation.name_of_record? hsome]
    exact recordName_ne e.name (by decide)
  · rw [h.name_code]
    exact (Text.isFreeName_iff.mp hname.1).1

theorem error_notMem_globals : "FieldOverflowError" ∉ e.code.globals := by
  rw [mem_globals_iff h hmade]
  intro hcall
  rcases Function.mem_calls hcall with hg | hg | hg
  · simp at hg
  · simp at hg
  · exact recordName_ne e.code.name (by decide) (name_of_record h hmade hg).symm

theorem reads_cases {reader g : String} (hg : Reads e.code reader g) :
    reader = e.code.name ∧ (g = "overflow" ∨ g = "min" ∨ e.code.result.record? = some g) ∨
      (reader, g) ∈ ownLookups := by
  rcases (reads_iff (error_notMem_globals h hmade)).mp hg with ⟨hreader, hg⟩ | ⟨_, hown⟩
  · exact .inl ⟨hreader, Function.mem_calls ((mem_globals_iff h hmade).mp hg)⟩
  · exact .inr hown

/-- No variable of a function has the form of a name that the function looks up. -/
theorem form_variable_ne {form : String → String} (hform : Text.IsForm form) {g : String}
    (hg : g ∈ e.code.globals) {x : Name} (hx : x ∈ e.code.bound) : form x.text ≠ form g := by
  rw [hform.of_isAscii x.isAscii_text]
  rcases Function.mem_calls ((mem_globals_iff h hmade).mp hg) with rfl | rfl | hrecord
  · rw [hform.of_isAscii rfl]
    exact x.text_ne_call.1
  · rw [hform.of_isAscii rfl]
    exact x.text_ne_call.2
  · have hvalue : x = .value := by
      have hbound := hmade.bound_of_record h.code hrecord
      rw [hbound] at hx
      exact List.mem_singleton.mp hx
    rw [name_of_record h hmade hrecord, form_recordName hform, hvalue]
    exact (recordName_ne _ (by decide)).symm

end Entry

/-- How a function stands in a module, compared with the module of its item alone. It looks up names
of the module, names of the language and its own record, and mistakes none of its variables for
them. A name that the module defines is found as meant exactly if nothing of its form is defined
later. A name of the language is found as meant exactly if nothing of its form is defined at all,
and the language's names have not been replaced when the code that reads it is defined. If names
are written in their form, this fails for `super` if it is defined, for `min` if the language's
names have been replaced, and for nothing else. -/
structure Hygiene (form : String → String) (m alone : Module) (f : Function) : Prop where
  reads : ∀ reader g, Reads f reader g →
    reader = f.name ∧ (g = "overflow" ∨ g = "min" ∨ f.result.record? = some g) ∨
      (reader, g) ∈ ownLookups
  outside : ∀ g ∈ f.globals, ∀ x ∈ f.bound, form x.text ≠ form g
  record : ∀ r, f.result.record? = some r →
    r = recordName f.name ∧ ∃ fields, m.meant r = .defined (.record r fields)
  alone : ∀ reader g, Reads f reader g → m.meant g = alone.meant g
  defined : ∀ reader g x, Reads f reader g → m.meant g = .defined x →
    (m.finds form reader g = .defined x ↔ ∀ y ∈ m.later g, form y.name ≠ form g)
  language : ∀ reader g, Reads f reader g → m.meant g = .language →
    (m.finds form reader g = .language ↔ (∀ n ∈ m.defined, form n ≠ g) ∧
      ∀ x ∈ m.earlier reader, form x.name ≠ "__builtins__")
  written : (∀ n ∈ m.defined, form n = n) → ∀ reader g, Reads f reader g →
    (m.finds form reader g = m.meant g ↔ (g = "super" → "super" ∉ m.defined) ∧
      (g = "min" → ∀ x ∈ m.earlier f.name, x.name ≠ "__builtins__"))

section Items

variable {entries : List Entry} (h : Apart entries) {e : Entry} (he : e ∈ entries)
  (hmade : e.op.Made)

include h he hmade

theorem meant_record {r : String} (hr : e.code.result.record? = some r) :
    ∃ fields, e.record? = some (r, fields) ∧
      (ofEntries entries).meant r = .defined (.record r fields) := by
  rw [e.record?_code (h.valid e he) hmade] at hr
  obtain ⟨⟨r, fields⟩, hrecord, rfl⟩ := Option.map_eq_some_iff.mp hr
  have hmem : Entity.record r fields ∈ (ofEntries entries).recordEntities :=
    List.mem_map.mpr ⟨(r, fields), List.mem_flatMap.mpr ⟨e, he, Option.mem_toList.mpr hrecord⟩, rfl⟩
  exact ⟨fields, hrecord, meant_of_mem h (List.mem_append_right _ hmem)⟩

/-- The code of an item looks up what the module or the item defines, or names of the language. -/
theorem reads_meant {reader g : String} (hg : Reads e.code reader g) :
    (∃ x, (ofEntries entries).meant g = .defined x) ∧ g ≠ "min" ∧ g ≠ "super" ∨
      (ofEntries entries).meant g = .language ∧
        (reader = e.code.name ∧ g = "min" ∨ reader = "FieldOverflowError" ∧ g = "super") := by
  obtain ⟨hraiser, herror, hmin, hsuper⟩ := meant_preamble h
  rcases e.reads_cases (h.valid e he) hmade hg with ⟨hreader, rfl | rfl | hrecord⟩ | hown
  · exact .inl ⟨⟨_, hraiser⟩, by decide, by decide⟩
  · exact .inr ⟨hmin, .inl ⟨hreader, rfl⟩⟩
  · obtain ⟨fields, _, hmeant⟩ := meant_record h he hmade hrecord
    rw [e.name_of_record (h.valid e he) hmade hrecord] at hmeant ⊢
    exact .inl ⟨⟨_, hmeant⟩, recordName_ne _ (by decide), recordName_ne _ (by decide)⟩
  · simp only [ownLookups, List.mem_cons, Prod.mk.injEq, List.not_mem_nil, or_false] at hown
    rcases hown with ⟨rfl, rfl⟩ | ⟨rfl, rfl⟩
    · exact .inl ⟨⟨_, herror⟩, by decide, by decide⟩
    · exact .inr ⟨hsuper, .inr ⟨rfl, rfl⟩⟩

theorem meant_eq_alone {reader g : String} (hg : Reads e.code reader g) :
    (ofEntries entries).meant g = (ofEntries [e]).meant g := by
  have halone := h.singleton he
  obtain ⟨hraiser, herror, hmin, hsuper⟩ := meant_preamble h
  obtain ⟨hraiser', herror', hmin', hsuper'⟩ := meant_preamble halone
  rcases e.reads_cases (h.valid e he) hmade hg with ⟨_, rfl | rfl | hrecord⟩ | hown
  · rw [hraiser, hraiser']
  · rw [hmin, hmin']
  · obtain ⟨fields, hfields, hmeant⟩ := meant_record h he hmade hrecord
    obtain ⟨fields', hfields', hmeant'⟩ := meant_record halone List.mem_cons_self hmade hrecord
    rw [hfields] at hfields'
    cases hfields'
    rw [hmeant, hmeant']
  · simp only [ownLookups, List.mem_cons, Prod.mk.injEq, List.not_mem_nil, or_false] at hown
    rcases hown with ⟨rfl, rfl⟩ | ⟨rfl, rfl⟩
    · rw [herror, herror']
    · rw [hsuper, hsuper']

variable {form : String → String} (hform : Text.IsForm form)

include hform

theorem finds_language_iff_of_reads {reader g : String} (hg : Reads e.code reader g)
    (hmeant : (ofEntries entries).meant g = .language) :
    (ofEntries entries).finds form reader g = .language ↔
      (∀ n ∈ (ofEntries entries).defined, form n ≠ g) ∧
        ∀ x ∈ (ofEntries entries).earlier reader, form x.name ≠ "__builtins__" := by
  refine finds_language_iff h hform ?_ hmeant
  rcases reads_meant h he hmade hg with ⟨⟨x, hx⟩, _⟩ | ⟨_, ⟨_, rfl⟩ | ⟨_, rfl⟩⟩
  · rw [hmeant] at hx
    cases hx
  · rfl
  · rfl

/-- Names that are written in their form hide nothing but two names of the language. -/
theorem finds_eq_meant_iff (hwritten : ∀ n ∈ (ofEntries entries).defined, form n = n)
    {reader g : String} (hg : Reads e.code reader g) :
    (ofEntries entries).finds form reader g = (ofEntries entries).meant g ↔
      (g = "super" → "super" ∉ (ofEntries entries).defined) ∧
        (g = "min" → ∀ x ∈ (ofEntries entries).earlier e.code.name, x.name ≠ "__builtins__") := by
  have hname : ∀ x ∈ (ofEntries entries).entities, form x.name = x.name := by
    intro x hx
    rcases List.mem_append.mp hx with hx | hx
    · exact hform.of_isAscii (isAscii_of_mem_reserved (name_mem_reserved hx))
    · exact hwritten _ ((mem_defined_iff h).mpr ⟨x, hx, rfl⟩)
  have hearlier : ∀ x ∈ (ofEntries entries).earlier reader, form x.name = x.name :=
    fun x hx => hname x ((List.takeWhile_sublist _).subset hx)
  rcases reads_meant h he hmade hg with ⟨⟨x, hx⟩, hmin, hsuper⟩ | ⟨hmeant, hcase⟩
  · refine iff_of_true ?_ ⟨fun heq => absurd heq hsuper, fun heq => absurd heq hmin⟩
    rw [hx]
    refine (finds_defined_iff h hx).mpr fun y hy => ?_
    obtain ⟨hmem, rfl⟩ := mem_of_meant hx
    obtain ⟨before, after, hsplit, hlater, hafter⟩ := exists_split h hmem
    rw [hlater] at hy
    rw [hname x hmem, hname y (by simp [hsplit, hy])]
    exact hafter y hy
  · rw [hmeant, finds_language_iff_of_reads h he hmade hform hg hmeant]
    rcases hcase with ⟨rfl, rfl⟩ | ⟨rfl, rfl⟩
    · have hmin : ∀ n ∈ (ofEntries entries).defined, form n ≠ "min" := by
        intro n hn
        rw [hwritten n hn]
        rintro rfl
        exact notMem_reserved h hn (by decide)
      constructor
      · rintro ⟨_, hbuiltins⟩
        exact ⟨fun heq => absurd heq (by decide), fun _ x hx => hearlier x hx ▸ hbuiltins x hx⟩
      · rintro ⟨_, hbuiltins⟩
        exact ⟨hmin, fun x hx heq => hbuiltins rfl x hx ((hearlier x hx).symm.trans heq)⟩
    · constructor
      · rintro ⟨hdefined, _⟩
        exact ⟨fun _ hsuper => hdefined _ hsuper (hwritten _ hsuper),
          fun heq => absurd heq (by decide)⟩
      · rintro ⟨hdefined, _⟩
        refine ⟨fun n hn heq => ?_, fun x hx heq => ?_⟩
        · rw [hwritten n hn] at heq
          exact hdefined rfl (heq ▸ hn)
        · exact name_of_mem_earlier_error hx ((hearlier x hx).symm.trans heq)

theorem hygiene_of_mem : Hygiene form (ofEntries entries) (ofEntries [e]) e.code where
  reads _ _ := e.reads_cases (h.valid e he) hmade
  outside _ hg _ hx := e.form_variable_ne (h.valid e he) hmade hform hg hx
  record r hr := by
    obtain ⟨fields, _, hmeant⟩ := meant_record h he hmade hr
    exact ⟨e.name_of_record (h.valid e he) hmade hr, fields, hmeant⟩
  alone _ _ := meant_eq_alone h he hmade
  defined _ _ _ _ := finds_defined_iff h
  language _ _ := finds_language_iff_of_reads h he hmade hform
  written hwritten _ _ := finds_eq_meant_iff h he hmade hform hwritten

end Items

/-- Under every name that is looked up when a function of a module is called, what is meant by it is
found, except exactly where a definition of the same form comes between, or where the language's
names have been replaced. -/
theorem lookups_found_iff {form : String → String} (hform : Text.IsForm form)
    {items : List (Value × Content)}
    (hmade : ∀ item ∈ items, ∀ op, item.2 = .operation op → op.Made) {m : Module}
    (hm : ofItems items = .ok m) :
    m.meant "overflow" = .defined .raiser ∧ m.meant "FieldOverflowError" = .defined .error ∧
    m.meant "min" = .language ∧ m.meant "super" = .language ∧
    List.Forall₂ (fun item f => ∃ alone, ofItems [item] = .ok alone ∧ alone.functions = [f] ∧
      Hygiene form m alone f) items m.functions := by
  obtain ⟨entries, rfl, hapart, rfl⟩ := (ofItems_eq_ok_iff items m).mp hm
  obtain ⟨hraiser, herror, hmin, hsuper⟩ := meant_preamble hapart
  refine ⟨hraiser, herror, hmin, hsuper, ?_⟩
  refine List.forall₂_map_left_iff.mpr (List.forall₂_map_right_iff.mpr (List.forall₂_same.mpr ?_))
  intro e he
  refine ⟨ofEntries [e], ?_, rfl, hygiene_of_mem hapart he ?_ hform⟩
  · exact (ofItems_eq_ok_iff _ _).mpr ⟨[e], rfl, hapart.singleton he, rfl⟩
  · exact hmade e.item (List.mem_map_of_mem he) e.op rfl

/-- Items may have the names of variables, and the name of a record that no item needs. -/
theorem lookups_found_iff_variables :
    ∃ x c r items m, Extraction.make { template := .text "aab.bacc" } none = .ok x ∧
      Combination.make { template := .text "aaaabbbb", overflow := .text "panic" } none = .ok c ∧
      Replacement.make { template := .text "aaaa.b.b", overflow := .text "saturate" } none = .ok r ∧
      items = [(.text "value", .operation (.extraction x)),
        (.text "a", .operation (.combination c)),
        (.text "a_Fields", .operation (.replacement r))] ∧
      ofItems items = .ok m ∧ m.defined = ["value", "value_Fields", "a", "a_Fields"] ∧
      m.meant "overflow" = .defined .raiser ∧ m.meant "super" = .language ∧
      List.Forall₂ (fun item f => ∃ alone, ofItems [item] = .ok alone ∧ alone.functions = [f] ∧
        Hygiene Text.narrow m alone f ∧
          ∀ reader g, Reads f reader g → m.finds Text.narrow reader g = alone.meant g)
        items m.functions := by
  obtain ⟨x, c, r, items, m, hx, hc, hr, hitems, hm, hdefined, hnames⟩ :
      ∃ x c r items m, Extraction.make { template := .text "aab.bacc" } none = .ok x ∧
        Combination.make { template := .text "aaaabbbb", overflow := .text "panic" } none = .ok c ∧
        Replacement.make { template := .text "aaaa.b.b", overflow := .text "saturate" } none =
          .ok r ∧
        items = [(.text "value", .operation (.extraction x)),
          (.text "a", .operation (.combination c)),
          (.text "a_Fields", .operation (.replacement r))] ∧
        ofItems items = .ok m ∧ m.defined = ["value", "value_Fields", "a", "a_Fields"] ∧
        m.entities.map Entity.name = ["collections", "FieldOverflowError", "overflow",
          "value_Fields", "value", "a", "a_Fields"] :=
    ⟨_, _, _, _, _, rfl, rfl, rfl, rfl, rfl, rfl, rfl⟩
  have hmade : ∀ item ∈ items, ∀ op, item.2 = .operation op → op.Made := by
    rw [hitems]
    simp only [List.forall_mem_cons]
    refine ⟨?_, ?_, ?_, by simp⟩ <;> rintro op ⟨⟩
    · exact .extraction hx
    · exact .combination hc
    · exact .replacement hr
  obtain ⟨hraiser, _, _, hsuper, hall⟩ := lookups_found_iff Text.isForm_narrow hmade hm
  refine ⟨x, c, r, items, m, hx, hc, hr, hitems, hm, hdefined, hraiser, hsuper, ?_⟩
  have hwritten : ∀ n ∈ m.defined, Text.narrow n = n := by
    rw [hdefined]
    decide
  refine hall.imp fun item f => ?_
  rintro ⟨alone, halone, hf, hygiene⟩
  refine ⟨alone, halone, hf, hygiene, fun reader g hg => ?_⟩
  rw [← hygiene.alone reader g hg, hygiene.written hwritten reader g hg]
  refine ⟨fun _ => by rw [hdefined]; decide, fun _ x hx heq => ?_⟩
  have hname := List.mem_map_of_mem (f := Entity.name) ((List.takeWhile_sublist _).subset hx)
  rw [hnames, heq] at hname
  revert hname
  decide

/-- Three ways to come between. An item `super` is called again in place of the function of the
language when it refuses a value. After an item `__builtins__` the minimum is looked for within that
item. An item whose name is written with wide characters takes the place of the minimum. -/
theorem lookups_captured :
    (∃ c m f, Combination.make { template := .text "aaaaaaaa", overflow := .text "panic" } none =
        .ok c ∧
      ofItems [(.text "super", .operation (.combination c))] = .ok m ∧ m.functions = [f] ∧
      Reads f "FieldOverflowError" "super" ∧
      m.finds id "FieldOverflowError" "super" = .defined (.function f)) ∧
    (∃ c m f f', Combination.make { template := .text "aaaaaaaa", overflow := .text "saturate" }
        none = .ok c ∧
      ofItems [(.text "__builtins__", .operation (.combination c)),
        (.text "f", .operation (.combination c))] = .ok m ∧ m.functions = [f', f] ∧
      Reads f "f" "min" ∧ m.finds id "f" "min" = .within (.function f')) ∧
    (∃ c m f, Combination.make { template := .text "aaaaaaaa", overflow := .text "saturate" } none =
        .ok c ∧
      ofItems [(.text "ｍｉｎ", .operation (.combination c))] = .ok m ∧ m.functions = [f] ∧
      Reads f "ｍｉｎ" "min" ∧ m.finds Text.narrow "ｍｉｎ" "min" = .defined (.function f)) := by
  refine ⟨?_, ?_, ?_⟩
  · obtain ⟨c, m, f, hc, hm, hf, hglobals, hfinds⟩ : ∃ c m f,
        Combination.make { template := .text "aaaaaaaa", overflow := .text "panic" } none = .ok c ∧
          ofItems [(.text "super", .operation (.combination c))] = .ok m ∧ m.functions = [f] ∧
          f.globals = ["overflow"] ∧
          m.finds id "FieldOverflowError" "super" = .defined (.function f) :=
      ⟨_, _, _, rfl, rfl, rfl, rfl, rfl⟩
    have hoverflow : Reads f f.name "overflow" := .body (by simp [hglobals])
    have herror : Reads f "overflow" "FieldOverflowError" := .own hoverflow (by decide)
    exact ⟨c, m, f, hc, hm, hf, .own herror (by decide), hfinds⟩
  · obtain ⟨c, m, f, f', hc, hm, hf, hname, hglobals, hfinds⟩ : ∃ c m f f',
        Combination.make { template := .text "aaaaaaaa", overflow := .text "saturate" } none =
            .ok c ∧
          ofItems [(.text "__builtins__", .operation (.combination c)),
            (.text "f", .operation (.combination c))] = .ok m ∧ m.functions = [f', f] ∧
          f.name = "f" ∧ f.globals = ["min"] ∧ m.finds id "f" "min" = .within (.function f') :=
      ⟨_, _, _, _, rfl, rfl, rfl, rfl, rfl, rfl⟩
    exact ⟨c, m, f, f', hc, hm, hf, hname ▸ .body (by simp [hglobals]), hfinds⟩
  · obtain ⟨c, f, hc, hf, hcalls⟩ : ∃ c f,
        Combination.make { template := .text "aaaaaaaa", overflow := .text "saturate" } none =
            .ok c ∧
          (Operation.combination c).function "ｍｉｎ" none = .ok f ∧ f.calls = ["min"] :=
      ⟨_, _, rfl, rfl, rfl⟩
    have hfree : Text.isFreeName "ｍｉｎ" := by decide +kernel
    have hvalid : (Entry.mk "ｍｉｎ" (.combination c) f).Valid :=
      ⟨by simpa [Entry.names, Entry.record?, Operation.record?, reserved] using hfree,
        List.nodup_singleton _, hf⟩
    have hapart : Apart [⟨"ｍｉｎ", .combination c, f⟩] :=
      ⟨by simpa using hvalid, List.pairwise_singleton ..⟩
    have hm : ofItems [(.text "ｍｉｎ", .operation (.combination c))] =
        .ok (ofEntries [⟨"ｍｉｎ", .combination c, f⟩]) :=
      (ofItems_eq_ok_iff _ _).mpr ⟨_, rfl, hapart, rfl⟩
    have hname : f.name = "ｍｉｎ" := hvalid.name_code
    have hmin : "min" ∈ f.globals :=
      (Entry.mem_globals_iff hvalid (.combination hc)).mpr (by simp [hcalls])
    refine ⟨c, _, f, hc, hm, rfl, hname ▸ .body hmin, ?_⟩
    refine finds_eq_defined_iff.mpr ?_
    have hform : Text.narrow f.name = Text.narrow "min" := by
      rw [hname]
      decide +kernel
    exact List.find?_cons_of_pos (by simp [Entity.name, hform])

end Module

end BitTemplate
