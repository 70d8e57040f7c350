import BitTemplate.Module
import BitTemplate.Proofs.Failure
import Mathlib.Data.List.Lattice

/-!
The items of a module. An item defines a name for its function and, for an extraction with named
fields, a name for its record. Items make a module exactly if each is an operation under a name,
all names that they define are free, and no two are the same. The module then has the names, the
records and the functions of its items in their order.
-/
namespace BitTemplate

open Failure Program

namespace Operation

/-- The record that an operation needs under a name, and the fields of it. -/
def record? (op : Operation) (name : String) : Option (String × List Letter) :=
  match op with
  | .extraction x => if x.named then some (Module.recordName name, x.names) else none
  | _ => none

theorem name_of_record? {op : Operation} {name : String} {r : String × List Letter}
    (h : op.record? name = some r) : r.1 = Module.recordName name := by
  unfold record? at h
  split at h
  · split at h
    · cases h
      rfl
    · cases h
  · cases h

theorem name_of_function {op : Operation} {name : String} {record : Option String} {f : Function}
    (h : op.function name record = .ok f) : f.name = name := by
  cases op with
  | extraction x =>
    obtain ⟨_, _, hf⟩ := (bind_eq_ok_iff _ _ _).mp h
    cases hf
    rfl
  | combination c =>
    obtain ⟨_, _, hf⟩ := (bind_eq_ok_iff _ _ _).mp h
    cases hf
    rfl
  | replacement r =>
    obtain ⟨_, _, hf⟩ := (bind_eq_ok_iff _ _ _).mp h
    cases hf
    rfl
  | transfer t =>
    obtain ⟨_, _, hrest⟩ := (bind_eq_ok_iff _ _ _).mp h
    obtain ⟨_, _, hf⟩ := (bind_eq_ok_iff _ _ _).mp hrest
    cases hf
    rfl

end Operation

namespace Module

/-- An item of a module and the code of its function. -/
structure Entry where
  name : String
  op : Operation
  code : Function

namespace Entry

def item (e : Entry) : Value × Content := (.text e.name, .operation e.op)

def record? (e : Entry) : Option (String × List Letter) := e.op.record? e.name

/-- The names that an item defines. -/
def names (e : Entry) : List String := e.name :: (e.record?.map Prod.fst).toList

/-- The names of an item are free in a module without items, and the code is that of the item. -/
structure Valid (e : Entry) : Prop where
  free : ∀ n ∈ e.names, Text.isFreeName n ∧ n ∉ reserved
  nodup : e.names.Nodup
  code : e.op.function e.name (e.record?.map Prod.fst) = .ok e.code

end Entry

def extend (m : Module) (e : Entry) : Module :=
  ⟨m.defined ++ e.names, m.records ++ e.record?.toList, m.functions ++ [e.code]⟩

theorem define_eq_ok_iff (m m' : Module) (n : String) :
    m.define n = .ok m' ↔ (Text.isFreeName n ∧ n ∉ reserved) ∧ n ∉ m.defined ∧
      m' = { m with defined := m.defined ++ [n] } := by
  unfold define
  simp only [List.contains_iff_mem]
  by_cases hname : Text.isFreeName n
  · rw [if_neg (not_not.mpr hname)]
    by_cases htaken : n ∈ reserved ∨ n ∈ m.defined
    · rw [if_pos htaken]
      refine iff_of_false nofun ?_
      rintro ⟨⟨_, hreserved⟩, hdefined, _⟩
      exact htaken.elim hreserved hdefined
    · rw [if_neg htaken, Except.ok.injEq]
      rw [not_or] at htaken
      constructor
      · intro h
        exact ⟨⟨hname, htaken.1⟩, htaken.2, h.symm⟩
      · rintro ⟨_, _, rfl⟩
        rfl
  · rw [if_pos hname]
    exact iff_of_false nofun fun h => hname h.1.1

theorem addOperation_of_no_record (m : Module) {name : String} {op : Operation}
    (h : op.record? name = none) :
    m.addOperation name op =
      (op.function name none).map fun f => { m with functions := m.functions ++ [f] } := by
  rw [← bind_ok]
  cases op with
  | extraction x =>
    have hnamed : ¬ x.named := by simpa [Operation.record?] using h
    rw [addOperation, if_neg hnamed]
    rfl
  | combination c => rfl
  | replacement r => rfl
  | transfer t => rfl

theorem addOperation_of_record (m : Module) {name : String} {op : Operation}
    {r : String × List Letter} (h : op.record? name = some r) :
    m.addOperation name op = m.define r.1 >>= fun m =>
      (op.function name (some r.1)).map fun f =>
        { m with records := m.records ++ [r], functions := m.functions ++ [f] } := by
  simp only [← bind_ok]
  cases op with
  | extraction x =>
    have hnamed : x.named = true ∧ (recordName name, x.names) = r := by
      simpa [Operation.record?] using h
    obtain ⟨hnamed, rfl⟩ := hnamed
    rw [addOperation, if_pos hnamed]
    rfl
  | combination c => cases h
  | replacement r => cases h
  | transfer t => cases h

theorem addOperation_eq_ok_iff (m m' : Module) (name : String) (op : Operation) :
    m.addOperation name op = .ok m' ↔
      ∃ f, op.function name ((op.record? name).map Prod.fst) = .ok f ∧
        (∀ r ∈ (op.record? name).map Prod.fst,
          (Text.isFreeName r ∧ r ∉ reserved) ∧ r ∉ m.defined) ∧
        m' = ⟨m.defined ++ ((op.record? name).map Prod.fst).toList,
          m.records ++ (op.record? name).toList, m.functions ++ [f]⟩ := by
  cases hrecord : op.record? name with
  | none =>
    rw [addOperation_of_no_record m hrecord, map_eq_ok_iff]
    constructor
    · rintro ⟨f, hf, rfl⟩
      exact ⟨f, hf, nofun, by simp⟩
    · rintro ⟨f, hf, _, rfl⟩
      exact ⟨f, hf, by simp⟩
  | some r =>
    rw [addOperation_of_record m hrecord, bind_eq_ok_iff]
    constructor
    · rintro ⟨m₁, hdefine, hrest⟩
      obtain ⟨hname, hnew, rfl⟩ := (define_eq_ok_iff _ _ _).mp hdefine
      obtain ⟨f, hf, rfl⟩ := (map_eq_ok_iff _ _ _).mp hrest
      exact ⟨f, hf, by simpa using ⟨hname, hnew⟩, rfl⟩
    · rintro ⟨f, hf, hfree, rfl⟩
      obtain ⟨hname, hnew⟩ := hfree r.1 rfl
      exact ⟨_, (define_eq_ok_iff _ _ _).mpr ⟨hname, hnew, rfl⟩,
        (map_eq_ok_iff _ _ _).mpr ⟨f, hf, rfl⟩⟩

theorem Entry.forall_mem_names {e : Entry} {P : String → Prop} :
    (∀ n ∈ e.names, P n) ↔ P e.name ∧ ∀ r ∈ e.record?.map Prod.fst, P r := by
  rw [names, List.forall_mem_cons]
  simp only [Option.mem_toList, Option.mem_def]

theorem Entry.nodup_names_iff {e : Entry} :
    e.names.Nodup ↔ ∀ r ∈ e.record?.map Prod.fst, r ≠ e.name := by
  unfold names
  cases e.record? with
  | none => simp
  | some r => simp [eq_comm]

/-- An item is added exactly if it is an operation under a name and what it defines is free. -/
theorem add_eq_ok_iff (m m' : Module) (item : Value × Content) :
    m.add item.1 item.2 = .ok m' ↔ ∃ e : Entry, item = e.item ∧ e.Valid ∧
      (∀ n ∈ e.names, n ∉ m.defined) ∧ m' = m.extend e := by
  constructor
  · intro h
    obtain ⟨key, content⟩ := item
    cases key with
    | text name =>
      obtain ⟨m₁, hdefine, hrest⟩ := (bind_eq_ok_iff _ _ _).mp h
      obtain ⟨hname, hnew, rfl⟩ := (define_eq_ok_iff _ _ _).mp hdefine
      cases content with
      | other v => cases hrest
      | operation op =>
        obtain ⟨f, hf, hfree, rfl⟩ := (addOperation_eq_ok_iff _ _ _ _).mp hrest
        simp only [List.mem_append, List.mem_singleton, not_or] at hfree
        refine ⟨⟨name, op, f⟩, rfl, ⟨?_, ?_, hf⟩, ?_, ?_⟩
        · exact Entry.forall_mem_names.mpr ⟨hname, fun r hr => (hfree r hr).1⟩
        · exact Entry.nodup_names_iff.mpr fun r hr => (hfree r hr).2.2
        · exact Entry.forall_mem_names.mpr ⟨hnew, fun r hr => (hfree r hr).2.1⟩
        · simp [extend, Entry.names, Entry.record?]
    | _ => cases h
  · rintro ⟨e, rfl, hvalid, hnew, rfl⟩
    obtain ⟨hname, hfree⟩ := Entry.forall_mem_names.mp hvalid.free
    obtain ⟨hnew, hnewRecord⟩ := Entry.forall_mem_names.mp hnew
    refine (bind_eq_ok_iff _ _ _).mpr
      ⟨_, (define_eq_ok_iff _ _ _).mpr ⟨hname, hnew, rfl⟩,
        (addOperation_eq_ok_iff _ _ _ _).mpr ⟨e.code, hvalid.code, fun r hr => ?_, ?_⟩⟩
    · have hne := Entry.nodup_names_iff.mp hvalid.nodup r hr
      simp only [List.mem_append, List.mem_singleton, not_or]
      exact ⟨hfree r hr, hnewRecord r hr, hne⟩
    · simp [extend, Entry.names, Entry.record?]

/-- The module with the given entries. -/
def ofEntries (entries : List Entry) : Module :=
  ⟨entries.flatMap Entry.names, entries.flatMap fun e => e.record?.toList,
    entries.map Entry.code⟩

/-- What a module has of its entries comes after what it has already. -/
theorem foldl_extend (m : Module) (entries : List Entry) :
    entries.foldl extend m =
      ⟨m.defined ++ (ofEntries entries).defined, m.records ++ (ofEntries entries).records,
        m.functions ++ (ofEntries entries).functions⟩ := by
  induction entries generalizing m with
  | nil => simp [ofEntries]
  | cons e rest ih => simp [ih, ofEntries, extend]

/-- Adding items one after the other defines names that are apart from each other and from those
that are defined before. -/
theorem foldlM_add_eq_ok_iff (items : List (Value × Content)) (m m' : Module) :
    items.foldlM (fun m item => m.add item.1 item.2) m = .ok m' ↔
      ∃ entries : List Entry, items = entries.map Entry.item ∧ (∀ e ∈ entries, e.Valid) ∧
        (∀ e ∈ entries, ∀ n ∈ e.names, n ∉ m.defined) ∧
        entries.Pairwise (fun e e' => e.names.Disjoint e'.names) ∧ m' = entries.foldl extend m := by
  induction items generalizing m with
  | nil =>
    constructor
    · intro h
      cases h
      exact ⟨[], by simp⟩
    · rintro ⟨entries, hitems, _, _, _, rfl⟩
      rw [List.map_eq_nil_iff.mp hitems.symm]
      rfl
  | cons item rest ih =>
    rw [List.foldlM_cons, bind_eq_ok_iff]
    constructor
    · rintro ⟨m₁, hadd, hrest⟩
      obtain ⟨e, rfl, hvalid, hnew, rfl⟩ := (add_eq_ok_iff _ _ _).mp hadd
      obtain ⟨entries, rfl, hvalids, hnews, hapart, rfl⟩ := (ih _).mp hrest
      simp only [extend, List.mem_append, not_or] at hnews
      refine ⟨e :: entries, rfl, List.forall_mem_cons.mpr ⟨hvalid, hvalids⟩,
        List.forall_mem_cons.mpr ⟨hnew, fun e' he' n hn => (hnews e' he' n hn).1⟩,
        List.pairwise_cons.mpr ⟨fun e' he' n hn hn' => (hnews e' he' n hn').2 hn, hapart⟩, rfl⟩
    · rintro ⟨entries, hitems, hvalids, hnews, hapart, rfl⟩
      cases entries with
      | nil => cases hitems
      | cons e entries =>
        obtain ⟨rfl, rfl⟩ := List.cons.inj hitems
        rw [List.forall_mem_cons] at hvalids hnews
        rw [List.pairwise_cons] at hapart
        refine ⟨m.extend e, (add_eq_ok_iff _ _ _).mpr ⟨e, rfl, hvalids.1, hnews.1, rfl⟩,
          (ih _).mpr ⟨entries, rfl, hvalids.2, fun e' he' n hn => ?_, hapart.2, rfl⟩⟩
        simp only [extend, List.mem_append, not_or]
        exact ⟨hnews.2 e' he' n hn, fun hn' => hapart.1 e' he' hn' hn⟩

/-- The entries of a module: each is valid, and no two of them define the same name. -/
structure Apart (entries : List Entry) : Prop where
  valid : ∀ e ∈ entries, e.Valid
  disjoint : entries.Pairwise fun e e' => e.names.Disjoint e'.names

theorem ofItems_eq_ok_iff (items : List (Value × Content)) (m : Module) :
    ofItems items = .ok m ↔
      ∃ entries, items = entries.map Entry.item ∧ Apart entries ∧ m = ofEntries entries := by
  unfold ofItems
  rw [foldlM_add_eq_ok_iff]
  constructor
  · rintro ⟨entries, rfl, hvalid, _, hdisjoint, rfl⟩
    exact ⟨entries, rfl, ⟨hvalid, hdisjoint⟩, by simp [foldl_extend]⟩
  · rintro ⟨entries, rfl, hapart, rfl⟩
    exact ⟨entries, rfl, hapart.valid, by simp, hapart.disjoint, by simp [foldl_extend]⟩

theorem Apart.singleton {entries : List Entry} (h : Apart entries) {e : Entry} (he : e ∈ entries) :
    Apart [e] where
  valid := by simpa using h.valid e he
  disjoint := List.pairwise_singleton _ e

end Module

end BitTemplate
