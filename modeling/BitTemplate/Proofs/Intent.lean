import BitTemplate.Proofs.Visibility

/-!
The code that an operation is meant to have, said in terms of its fields, slots and templates alone.
A segment is taken out by its mask and then moved, and it is stored by moving and then masking, so
that a field is the union of its segments. Values that are refused or lowered are so in front of
everything else. What is stored is the union of the kept bits, the segments of all slots and the
literals, cut to the width of the template if some slot spills. The text of every operation that can
be made is read as that code.
-/
namespace BitTemplate

open Failure Script

namespace Script.Expression

/-- The bits of an expression that a number has. -/
def masked (t : Expression) (n : Nat) : Expression := .binary .conjunction t (.number n)

/-- An expression moved to the left, or to the right if the distance is negative. -/
def moved (t : Expression) (distance : Int) : Expression :=
  if 0 < distance then .binary .left t (.number distance.toNat)
  else if distance < 0 then .binary .right t (.number (-distance).toNat)
  else t

end Script.Expression

/-- The bits of a segment in a template value, as bits of the field value. -/
def Segment.taken (s : Segment) (t : Expression) : Expression := (t.masked s.mask).moved (-s.shift)

/-- The bits of a segment in a field value, as bits of the template value. -/
def Segment.stored (s : Segment) (t : Expression) : Expression := (t.moved s.shift).masked s.mask

namespace Field

def taken (f : Field) (t : Expression) : Expression := unionOf (f.segments.map fun s => s.taken t)

/-- The value of a field in its shape. -/
def shown (f : Field) (shape : Shape) (t : Expression) : Expression :=
  match shape with
  | .boolean => .binary .differs (t.masked f.mask) (.number 0)
  | _ => f.taken t

end Field

namespace Slot

/-- Whether values above the limit of the slot are lowered to it. -/
def lowers (s : Slot) : Bool := s.checked && s.overflow == .saturate

/-- The largest value that fits the slot. -/
def limit (s : Slot) : Nat := 2 ^ s.width - 1

/-- The variable of the lowered value that has a number. -/
def lowered (n : Nat) : String := "saturated_" ++ Text.decimalNat n

/-- What comes before values are stored. -/
def precaution (s : Slot) (n : Nat) : List Statement :=
  let a := s.name.text
  match s.checked, s.overflow with
  | true, .panic => [.check (.binary .above (.name a) (.number s.limit))
      [.perform (.call "overflow" [.text a, .name a, .number s.width])]]
  | true, .saturate => [.assign (lowered n) (.call "min" [.name a, .number s.limit])]
  | _, _ => []

/-- The variable whose value is stored. -/
def holder (s : Slot) (n : Nat) : String := if s.lowers then lowered n else s.name.text

/-- The segments of a value, and its excess if that spills to a bit of the template. -/
def stored (s : Slot) (width : Nat) (t : Expression) : List Expression :=
  (s.field.segments.map fun segment => segment.stored t) ++
    if s.spills ∧ s.field.spillOffset < width then
      [.binary .left (.binary .right t (.number s.width)) (.number s.field.spillOffset)]
    else []

/-- The slots, each with the number of those before it whose values are lowered. -/
def numbered (slots : List Slot) : List (Slot × Nat) :=
  slots.zip (slots.inits.map fun earlier => earlier.countP lowers)

end Slot

namespace Layout

/-- What is united in a template: bits that are kept of a variable, the values of all slots, and
the literals. -/
def terms (l : Layout) (slots : List Slot) (kept : Option String) : List Expression :=
  (if l.template.placeholderMask = 0 then []
    else kept.toList.map fun x => (Expression.name x).masked l.template.placeholderMask) ++
  (Slot.numbered slots).flatMap (fun p => p.1.stored l.width (.name (p.1.holder p.2))) ++
  if l.template.literalValue = 0 then [] else [.number l.template.literalValue]

/-- The union, cut to the template if a slot spills. -/
def stored (l : Layout) (slots : List Slot) (kept : Option String) : Expression :=
  if slots.any Slot.spills then (unionOf (l.terms slots kept)).masked (2 ^ l.width - 1)
  else unionOf (l.terms slots kept)

/-- The lines that store values in a template. -/
def storing (l : Layout) (slots : List Slot) (kept : Option String) : List Statement :=
  (Slot.numbered slots).flatMap (fun p => p.1.precaution p.2) ++ [.give (l.stored slots kept)]

end Layout

namespace Operation

/-- The parameter for an input. -/
def input (index : Nat) : String := "input_" ++ Text.decimalNat index

/-- The code that an operation is meant to have. -/
def intended : Operation → Definition
  | .extraction x =>
    ⟨"run", ["value"], [.give (.tuple (x.shaped.map fun p => p.1.shown p.2 (.name "value")))]⟩
  | .combination c => ⟨"run", c.layout.names.map Letter.text, c.layout.storing c.slots none⟩
  | .replacement r =>
    ⟨"run", "target" :: r.layout.names.map Letter.text, r.layout.storing r.slots (some "target")⟩
  | .transfer t =>
    ⟨"run", (List.range t.inputs.length).map input,
      (t.slots.map fun p => .assign p.1.name.text (p.2.field.taken (.name (input p.2.index)))) ++
        t.output.storing (t.slots.map Prod.fst) none⟩

end Operation

namespace Program

theorem Constant.value_of_ofNat {value width : Nat} {c : Constant} (h : ofNat value width = .ok c) :
    c.value = value :=
  congrArg Figure.number (Constant.figure_of_ofNat h)

theorem Constant.value_full (width : Nat) : (full width).value = 2 ^ width - 1 :=
  congrArg Figure.number (Constant.figure_full width)

theorem moved_left (t : Expression) {low high : Nat} (h : low < high) :
    t.moved ((high : Int) - low) = .binary .left t (.number (high - low)) := by
  rw [Expression.moved, if_pos (by omega)]
  congr 2
  omega

theorem moved_right (t : Expression) {low high : Nat} (h : low < high) :
    t.moved ((low : Int) - high) = .binary .right t (.number (high - low)) := by
  rw [Expression.moved, if_neg (by omega), if_pos (by omega)]
  congr 2
  omega

theorem tree_extractTerm {width : Nat} {source : Name} {s : Segment} {t : Term}
    (h : extractTerm width source s = .ok t) : t.tree = s.taken (.name source.text) := by
  obtain ⟨c, hc, hterm⟩ := (bind_eq_ok_iff _ _ _).mp h
  rw [Segment.taken, Segment.shift, neg_sub, ← Constant.value_of_ofNat hc]
  split at hterm
  · rename_i hlower
    cases hterm
    rw [moved_right _ hlower]
    rfl
  · rename_i hlower
    split at hterm
    · rename_i hhigher
      cases hterm
      rw [moved_left _ hhigher]
      rfl
    · cases hterm
      rw [Expression.moved, if_neg (by omega), if_neg (by omega)]
      rfl

theorem tree_depositTerm {width : Nat} {source : Name} {s : Segment} {t : Term}
    (h : depositTerm width source s = .ok t) : t.tree = s.stored (.name source.text) := by
  obtain ⟨c, hc, hterm⟩ := (bind_eq_ok_iff _ _ _).mp h
  cases hterm
  rw [Segment.stored, Segment.shift, ← Constant.value_of_ofNat hc]
  by_cases hlower : s.valueOffset < s.offset
  · rw [if_pos hlower, moved_left _ hlower]
    rfl
  by_cases hhigher : s.offset < s.valueOffset
  · rw [if_neg hlower, if_pos hhigher, moved_right _ hhigher]
    rfl
  · rw [if_neg hlower, if_neg hhigher, Expression.moved, if_neg (by omega), if_neg (by omega)]
    rfl

theorem tree_taken {width : Nat} {f : Field} {source : Name} {terms : List Term}
    (h : f.segments.mapM (extractTerm width source) = .ok terms) :
    unionOf (terms.map Term.tree) = f.taken (.name source.text) := by
  rw [map_eq_of_mapM (fun s _ t ht => tree_extractTerm ht) h]
  rfl

theorem tree_extract {width : Nat} {f : Field} {source : Name} {shape : Shape} {e : Expr}
    (h : extract width f source (some shape) = .ok e) :
    e.tree = f.shown shape (.name source.text) := by
  cases shape with
  | boolean =>
    obtain ⟨c, hc, hexpr⟩ := (bind_eq_ok_iff _ _ _).mp h
    cases hexpr
    rw [Expr.tree, Constant.value_of_ofNat hc]
    rfl
  | unsigned width inRange =>
    obtain ⟨terms, hterms, hexpr⟩ := (bind_eq_ok_iff _ _ _).mp h
    cases hexpr
    exact tree_taken hterms

/-- A slot takes its precaution and leaves the next number to the slots after it. -/
theorem adapt_eq (slot : Slot) (fresh : Nat) :
    (adapt slot (.letter slot.name) fresh).1.map Step.statement = slot.precaution fresh ∧
      (adapt slot (.letter slot.name) fresh).2.1.text = slot.holder fresh ∧
      (adapt slot (.letter slot.name) fresh).2.2 = fresh + slot.lowers.toNat := by
  have hlimit : (Constant.full slot.width).value = slot.limit := Constant.value_full slot.width
  unfold adapt Slot.precaution Slot.holder Slot.lowers
  cases slot.checked with
  | false => exact ⟨rfl, rfl, rfl⟩
  | true =>
    cases slot.overflow with
    | panic => exact ⟨by rw [← hlimit]; rfl, rfl, rfl⟩
    | saturate => exact ⟨by rw [← hlimit]; rfl, rfl, rfl⟩
    | truncate => exact ⟨rfl, rfl, rfl⟩
    | corrupt => exact ⟨rfl, rfl, rfl⟩

theorem numbered_cons (slot : Slot) (rest : List Slot) :
    Slot.numbered (slot :: rest) =
      (slot, 0) :: (Slot.numbered rest).map fun p => (p.1, slot.lowers.toNat + p.2) := by
  have hcount : rest.inits.map (fun earlier => (slot :: earlier).countP Slot.lowers) =
      (rest.inits.map fun earlier => earlier.countP Slot.lowers).map (slot.lowers.toNat + ·) := by
    rw [List.map_map]
    refine List.map_congr_left fun earlier _ => ?_
    rw [List.countP_cons, Function.comp_apply, Nat.add_comm]
    cases slot.lowers <;> rfl
  unfold Slot.numbered
  rw [List.inits_cons, List.map_cons, List.map_map, List.zip_cons_cons]
  refine congrArg₂ List.cons rfl ?_
  exact (congrArg rest.zip hcount).trans List.zip_map_right

theorem adaptAll_eq (slots : List Slot) (fresh : Nat) :
    (adaptAll slots fresh).1.map Step.statement =
        (Slot.numbered slots).flatMap (fun p => p.1.precaution (fresh + p.2)) ∧
      (slots.zip (adaptAll slots fresh).2).map (fun pair => (pair.1, pair.2.text)) =
        (Slot.numbered slots).map fun p => (p.1, p.1.holder (fresh + p.2)) := by
  induction slots generalizing fresh with
  | nil => exact ⟨rfl, rfl⟩
  | cons slot rest ih =>
    obtain ⟨hstatements, hholder, hfresh⟩ := adapt_eq slot fresh
    obtain ⟨ihstatements, ihholders⟩ := ih (fresh + slot.lowers.toNat)
    rw [adaptAll_cons, hfresh, numbered_cons]
    constructor
    · rw [List.map_append, hstatements, ihstatements, List.flatMap_cons, List.flatMap_map]
      simp only [Nat.add_assoc, Nat.add_zero]
    · rw [List.zip_cons_cons, List.map_cons, ihholders, hholder, List.map_cons, List.map_map]
      simp only [Nat.add_assoc, Nat.add_zero]
      rfl

theorem tree_unlessZero {n width : Nat} {term : Constant → Term} {k : Nat → Expression}
    (hterm : ∀ c, (term c).tree = k c.value) {terms : List Term}
    (h : unlessZero n width term = .ok terms) :
    terms.map Term.tree = if n = 0 then [] else [k n] := by
  unfold unlessZero at h
  split at h
  · rename_i hzero
    cases h
    rw [if_pos hzero]
    rfl
  · rename_i hzero
    obtain ⟨c, hc, rfl⟩ := (map_eq_ok_iff _ _ _).mp h
    rw [if_neg hzero, ← Constant.value_of_ofNat hc, ← hterm]
    rfl

theorem tree_deposit {width : Nat} {slot : Slot} {source : Name} {terms : List Term}
    (h : deposit width slot source = .ok terms) :
    terms.map Term.tree = slot.stored width (.name source.text) := by
  obtain ⟨parts, hparts, hterms⟩ := (bind_eq_ok_iff _ _ _).mp h
  have htrees := map_eq_of_mapM (fun s _ t ht => tree_depositTerm ht) hparts
  unfold Slot.stored
  rw [← htrees]
  split at hterms
  · rename_i hspills
    cases hterms
    rw [if_pos (by simpa using hspills), List.map_append]
    rfl
  · rename_i hspills
    cases hterms
    rw [if_neg (by simpa using hspills), List.append_nil]

theorem tree_stored {width : Nat} {slots : List Slot} {stored : List (List Term)}
    (h : (slots.zip (adaptAll slots 0).2).mapM (fun pair => deposit width pair.1 pair.2) =
      .ok stored) :
    stored.flatten.map Term.tree =
      (Slot.numbered slots).flatMap fun p => p.1.stored width (.name (p.1.holder p.2)) := by
  have htrees := map_eq_of_mapM (g := List.map Term.tree)
    (k := fun pair => pair.1.stored width (.name pair.2.text))
    (fun pair _ terms hterms => tree_deposit hterms) h
  have hpairs : (slots.zip (adaptAll slots 0).2).map
      (fun pair => pair.1.stored width (.name pair.2.text)) =
      (Slot.numbered slots).map fun p => p.1.stored width (.name (p.1.holder p.2)) := by
    have hholders := congrArg
      (List.map fun q : Slot × String => q.1.stored width (.name q.2)) (adaptAll_eq slots 0).2
    simpa only [List.map_map, Function.comp_def, Nat.zero_add] using hholders
  rw [List.map_flatten, htrees, hpairs, List.flatMap_def]

theorem combine_eq {layout : Layout} {slots : List Slot} {kept : Option Name} {steps : List Step}
    {e : Expr} (h : combine layout slots kept = .ok (steps, e)) :
    steps.map Step.statement ++ [.give e.tree] = layout.storing slots (kept.map Name.text) := by
  obtain ⟨keptTerms, stored, fixed, hkept, hstored, hfixed, rfl, rfl⟩ := combine_eq_ok h
  have hkeptTrees : keptTerms.map Term.tree = if layout.template.placeholderMask = 0 then []
      else (kept.map Name.text).toList.map fun x =>
        (Expression.name x).masked layout.template.placeholderMask := by
    cases kept with
    | none =>
      cases hkept
      simp
    | some x =>
      exact tree_unlessZero (k := fun n => (Expression.name x.text).masked n) (fun c => rfl) hkept
  have hterms : (keptTerms ++ stored.flatten ++ fixed).map Term.tree =
      layout.terms slots (kept.map Name.text) := by
    rw [List.map_append, List.map_append, hkeptTrees, tree_stored hstored,
      tree_unlessZero (k := .number) (fun c => rfl) hfixed]
    rfl
  have hprecautions := (adaptAll_eq slots 0).1
  simp only [Nat.zero_add] at hprecautions
  rw [hprecautions, Layout.storing, Layout.stored, ← hterms]
  split
  · rw [Expr.tree, Constant.value_full]
    rfl
  · rfl

theorem definition_extraction {x : Extraction} {f : Function} (h : x.function "run" none = .ok f) :
    f.definition = (Operation.extraction x).intended := by
  obtain ⟨items, hitems, hf⟩ := (bind_eq_ok_iff _ _ _).mp h
  have htrees := map_eq_of_mapM (fun pair _ e he => tree_extract he) hitems
  cases hf
  rw [Function.definition, Return.tree, htrees]
  rfl

/-- The letters of the slots of a layout, as variables. -/
theorem letters_of_slots {l : Layout} {slots : List Slot} (h : slots.map Slot.field = l.fields) :
    (slots.map fun slot => Name.letter slot.name).map Name.text = l.names.map Letter.text := by
  rw [← Layout.names_of_slots h, List.map_map, List.map_map]
  rfl

theorem definition_combination {c : Combination} (hslots : c.slots.map Slot.field = c.layout.fields)
    {f : Function} (h : combination "run" c.layout c.slots = .ok f) :
    f.definition = (Operation.combination c).intended := by
  obtain ⟨⟨steps, e⟩, hcombine, hf⟩ := (bind_eq_ok_iff _ _ _).mp h
  cases hf
  rw [Function.definition, letters_of_slots hslots, Return.tree, combine_eq hcombine]
  rfl

theorem definition_replacement {r : Replacement} (hslots : r.slots.map Slot.field = r.layout.fields)
    {f : Function} (h : replacement "run" r.layout r.slots = .ok f) :
    f.definition = (Operation.replacement r).intended := by
  obtain ⟨⟨steps, e⟩, hcombine, hf⟩ := (bind_eq_ok_iff _ _ _).mp h
  cases hf
  rw [Function.definition, List.map_cons, letters_of_slots hslots, Return.tree, combine_eq hcombine]
  rfl

theorem definition_transfer {t : Transfer} {f : Function}
    (h : transfer "run" t.inputs.length t.output t.slots = .ok f) :
    f.definition = (Operation.transfer t).intended := by
  obtain ⟨assigned, hassigned, hrest⟩ := (bind_eq_ok_iff _ _ _).mp h
  obtain ⟨⟨steps, e⟩, hcombine, hf⟩ := (bind_eq_ok_iff _ _ _).mp hrest
  have htaken : assigned.map Step.statement = t.slots.map fun p =>
      .assign p.1.name.text (p.2.field.taken (.name (Operation.input p.2.index))) := by
    refine map_eq_of_mapM ?_ hassigned
    intro pair _ step hstep
    obtain ⟨e, he, hassign⟩ := (bind_eq_ok_iff _ _ _).mp hstep
    obtain ⟨terms, hterms, hexpr⟩ := (bind_eq_ok_iff _ _ _).mp he
    cases hexpr
    cases hassign
    exact congrArg (Statement.assign pair.1.name.text) (tree_taken hterms)
  cases hf
  rw [Function.definition, List.map_append, List.append_assoc, htaken, Return.tree,
    combine_eq hcombine, List.map_map]
  rfl

end Program

namespace Operation

open Program

theorem Made.definition_eq {op : Operation} (h : op.Made) {f : Function}
    (hf : op.function "run" none = .ok f) : f.definition = op.intended := by
  cases h with
  | extraction h => exact definition_extraction hf
  | combination h => exact definition_combination (Combination.make_engines h).1 hf
  | replacement h => exact definition_replacement (Replacement.make_engines h).1 hf
  | transfer h => exact definition_transfer hf

theorem name_intended (op : Operation) : op.intended.name = "run" := by
  cases op <;> rfl

/-- A tuple with an item for each field. -/
theorem Made.tuple_of_extraction {x : Extraction} (h : (Operation.extraction x).Made) :
    ∃ items, (Operation.extraction x).intended.body = [.give (.tuple items)] ∧
      items.length = x.layout.fields.length := by
  cases h with
  | extraction h =>
    refine ⟨_, rfl, ?_⟩
    rw [List.length_map, ← (Extraction.make_engines h).1, List.length_map]

end Operation

/-- The text of every operation that can be made is one definition, which is the intended one. Its
lines read parameters, names that are assigned above, and the two functions that make a value fit;
no name is bound twice; and an extraction returns a tuple with an item for each field. -/
theorem source_reads_as_intended (op : Operation) (h : op.Made) :
    ∃ text, op.source = .ok text ∧ read? text = some op.intended ∧
      Scoped (["overflow", "min"] ++ op.intended.params) op.intended.accesses ∧
      op.intended.bound.Nodup ∧
      ∀ x, op = .extraction x → ∃ items, op.intended.body = [.give (.tuple items)] ∧
        items.length = x.layout.fields.length := by
  obtain ⟨f, hf, _⟩ := h.exists_function "run" none
  have hdefinition := h.definition_eq hf
  have hname : f.name = "run" := (congrArg Definition.name hdefinition).trans op.name_intended
  have hvisible := h.visible hf
  have hread := f.read?_text (by rw [hname]; decide) (by simp [h.record?_eq hf (.inl rfl)])
  rw [hdefinition] at hvisible hread
  refine ⟨f.text, ?_, hread, hvisible.inScope, hvisible.nodup, ?_⟩
  · rw [Operation.source, hf, map_ok]
  · rintro x rfl
    exact h.tuple_of_extraction

/-- A transfer that lowers one of its two letters, and an extraction of a single bit. -/
theorem source_reads_as_intended_lowering :
    (∃ t text d, Transfer.make ⟨.text "aaaabbbb", .text "aaaa11bb", .base .binary,
        .text "saturate", .none⟩ none = .ok t ∧
      (Operation.transfer t).source = .ok text ∧ read? text = some d ∧
      text = "def run(input_0):\n    a = ((input_0 & 0xf0) >> 4)\n    b = (input_0 & 0x0f)\n" ++
        "    saturated_0 = min(b, 0x3)\n" ++
        "    return ((a << 4) & 0xf0) | (saturated_0 & 0x03) | 0x0c\n" ∧
      d = ⟨"run", ["input_0"], [
        .assign "a" (.binary .right
          (.binary .conjunction (.name "input_0") (.number 0xf0)) (.number 4)),
        .assign "b" (.binary .conjunction (.name "input_0") (.number 0x0f)),
        .assign "saturated_0" (.call "min" [.name "b", .number 0x3]),
        .give (.binary .union
          (.binary .union
            (.binary .conjunction (.binary .left (.name "a") (.number 4)) (.number 0xf0))
            (.binary .conjunction (.name "saturated_0") (.number 0x03)))
          (.number 0x0c))]⟩ ∧
      Scoped (["overflow", "min"] ++ d.params) d.accesses ∧ d.bound.Nodup) ∧
    ∃ x text items, Extraction.make { template := .text "......a." } none = .ok x ∧
      (Operation.extraction x).source = .ok text ∧
      text = "def run(value):\n    return ((value & 0x02) != 0,)\n" ∧
      read? text = some ⟨"run", ["value"], [.give (.tuple items)]⟩ ∧
      items.length = x.layout.fields.length := by
  constructor
  · obtain ⟨t, ht⟩ : ∃ t, Transfer.make ⟨.text "aaaabbbb", .text "aaaa11bb", .base .binary,
        .text "saturate", .none⟩ none = .ok t := ⟨_, rfl⟩
    obtain ⟨text, htext, hread, hscoped, hnodup, _⟩ :=
      source_reads_as_intended (.transfer t) (.transfer ht)
    refine ⟨t, text, _, ht, htext, hread, ?_, ?_, hscoped, hnodup⟩
    · refine Except.ok.inj (htext.symm.trans ?_)
      exact eq_of_map_eq_ok ht (fun t => (Operation.transfer t).source) (by rfl)
    · exact eq_of_map_eq_ok ht (fun t => (Operation.transfer t).intended) (by rfl)
  · obtain ⟨x, hx⟩ : ∃ x, Extraction.make { template := .text "......a." } none = .ok x :=
      ⟨_, rfl⟩
    obtain ⟨text, htext, hread, _, _, htuple⟩ :=
      source_reads_as_intended (.extraction x) (.extraction hx)
    obtain ⟨items, hbody, hlength⟩ := htuple x rfl
    refine ⟨x, text, items, hx, htext, ?_, ?_, hlength⟩
    · refine Except.ok.inj (htext.symm.trans ?_)
      exact eq_of_map_eq_ok hx (fun x => (Operation.extraction x).source) (by rfl)
    · rw [hread]
      exact congrArg (fun body => some (Definition.mk "run" ["value"] body)) hbody

end BitTemplate
