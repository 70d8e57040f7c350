import BitTemplate.Program.Generation
import BitTemplate.Program.Meaning
import BitTemplate.Proofs.Storage
import BitTemplate.Shape.Choice

/-!
What generated code computes. Every constant fits the width that it is written with, so that
generation never fails. A term moves the bits of its segment, an expression reads its field, and
the steps of several slots let the same values pass as storing them does. The shortcuts of the
generated code are harmless: what is left out has no bits inside the template, and the final cut
is only left out where nothing lies outside of it.
-/
namespace BitTemplate.Program

open Failure

namespace Constant

theorem ofNat_eq_ok (value width : Nat) (h : value < 1 <<< width) :
    ofNat value width = .ok ⟨value, width, h⟩ := by
  simp [ofNat, h]

end Constant

/-- The term computes a function of one variable, whenever that holds an integer. -/
def Computes (t : Term) (source : Name) (g : Int → Int) : Prop :=
  ∀ (env : Env) (n : Int), (env source).toInt? = some n → t.eval env = .ok (g n)

theorem eval_name (env : Env) (source : Name) (n : Int) (h : (env source).toInt? = some n) :
    (Term.name source).eval env = .ok n := by
  unfold Term.eval
  exact operand_eq_ok _ n h

theorem exists_extractTerm (width : Nat) (source : Name) (s : Segment)
    (hfits : s.mask < 1 <<< width) :
    ∃ t, extractTerm width source s = .ok t ∧ Computes t source s.extract := by
  unfold extractTerm
  rw [Constant.ofNat_eq_ok _ _ hfits, ok_bind]
  have hmasked : ∀ (env : Env) (n : Int), (env source).toInt? = some n →
      (Term.mask (.name source) ⟨s.mask, width, hfits⟩).eval env =
        .ok (Bits.land n s.mask) := by
    intro env n hn
    rw [Term.eval, eval_name env source n hn]
    rfl
  by_cases hright : s.valueOffset < s.offset
  · refine ⟨_, if_pos hright, ?_⟩
    intro env n hn
    rw [Term.eval, hmasked env n hn, Segment.extract, if_pos (by omega)]
    rfl
  · by_cases hleft : s.offset < s.valueOffset
    · refine ⟨_, (if_neg hright).trans (if_pos hleft), ?_⟩
      intro env n hn
      rw [Term.eval, hmasked env n hn, Segment.extract, if_neg (by omega)]
      rfl
    · -- Where nothing is shifted, no shift is written.
      refine ⟨_, (if_neg hright).trans (if_neg hleft), ?_⟩
      intro env n hn
      have hzero : s.offset - s.valueOffset = 0 := by omega
      rw [hmasked env n hn, Segment.extract, if_pos (by omega), hzero, Int.shiftRight_zero]

theorem exists_depositTerm (width : Nat) (source : Name) (s : Segment)
    (hfits : s.mask < 1 <<< width) :
    ∃ t, depositTerm width source s = .ok t ∧ Computes t source s.deposit := by
  unfold depositTerm
  rw [Constant.ofNat_eq_ok _ _ hfits, ok_bind]
  refine ⟨_, rfl, ?_⟩
  intro env n hn
  have hname := eval_name env source n hn
  rw [Term.eval, Segment.deposit]
  by_cases hleft : s.valueOffset < s.offset
  · rw [if_pos hleft, if_pos (by omega), Term.eval, hname]
    rfl
  · by_cases hright : s.offset < s.valueOffset
    · rw [if_neg hleft, if_pos hright, if_neg (by omega), Term.eval, hname]
      rfl
    · have hzero : s.offset - s.valueOffset = 0 := by omega
      rw [if_neg hleft, if_neg hright, if_pos (by omega), hname, hzero, Int.shiftLeft_zero]
      rfl

/-- Terms for all segments of a list, from a term for each of them. -/
theorem exists_terms (generate : Segment → Except Error Term) (move : Segment → Int → Int)
    (source : Name) (segments : List Segment)
    (h : ∀ s ∈ segments, ∃ t, generate s = .ok t ∧ Computes t source (move s)) :
    ∃ terms, segments.mapM generate = .ok terms ∧
      ∀ (env : Env) (n : Int), (env source).toInt? = some n →
        terms.mapM (Term.eval env) = .ok (segments.map fun s => move s n) := by
  induction segments with
  | nil => exact ⟨[], rfl, fun _ _ _ => rfl⟩
  | cons s rest ih =>
    obtain ⟨t, ht, hcomputes⟩ := h s (List.mem_cons_self ..)
    obtain ⟨terms, hterms, heval⟩ := ih fun s' hs' => h s' (List.mem_cons_of_mem _ hs')
    refine ⟨t :: terms, ?_, ?_⟩
    · rw [mapM_cons, ht, ok_bind, hterms, map_ok]
    · intro env n hn
      rw [mapM_cons, hcomputes env n hn, ok_bind, heval env n hn, map_ok, List.map_cons]

/-- The code that takes a field out of a variable reads the field. -/
theorem exists_extract_plain (f : Field) (source : Name) :
    ∃ e, extract f.templateWidth f source none = .ok e ∧
      ∀ (env : Env) (n : Int), (env source).toInt? = some n →
        e.eval env = .ok (.int (f.extract n)) := by
  obtain ⟨terms, hterms, heval⟩ := exists_terms (extractTerm f.templateWidth source)
    Segment.extract source f.segments
    fun s hs => exists_extractTerm f.templateWidth source s (f.segment_mask_lt hs)
  refine ⟨.union terms, ?_, ?_⟩
  · unfold extract
    rw [hterms]
    rfl
  · intro env n hn
    rw [Expr.eval, evalUnion, heval env n hn]
    rfl

/-- A single test of all bits of a field gives its value as a truth value. -/
theorem exists_extract_shaped (f : Field) (source : Name) (shape : Shape) :
    ∃ e, extract f.templateWidth f source (some shape) = .ok e ∧
      ∀ (env : Env) (n : Int), (env source).toInt? = some n →
        e.eval env = .ok (shape.fromBits (.int (f.extract n))) := by
  cases shape with
  | boolean =>
    refine ⟨.test source ⟨f.mask, f.templateWidth, f.mask_lt⟩, ?_, ?_⟩
    · unfold extract
      rw [Constant.ofNat_eq_ok _ _ f.mask_lt]
      rfl
    · intro env n hn
      have htest : (Bits.land n f.mask != 0) = (f.extract n != 0) := by
        rw [Bool.eq_iff_iff, bne_iff_ne, bne_iff_ne]
        exact f.land_mask_ne_zero_iff n
      rw [Expr.eval, operand_eq_ok _ n hn, ok_bind, htest]
      rfl
  | unsigned w h =>
    obtain ⟨e, he, heval⟩ := exists_extract_plain f source
    refine ⟨e, he, ?_⟩
    intro env n hn
    exact heval env n hn

theorem exceeds_eq (v : Value) (n : Int) (h : v.toInt? = some n) (limit : Nat) :
    exceeds v limit = .ok (decide ((limit : Int) < n)) := by
  have hnumber : v.isNumber = true := by
    cases v <;> simp_all [Value.isNumber]
  have hcompare : v.compareInt? limit = some (compare n (limit : Int)) := by
    cases v <;> simp_all [Value.compareInt?, Value.toInt?, Value.numeral?]
  have hgt : (some (compare n (limit : Int)) == some Ordering.gt) = decide ((limit : Int) < n) := by
    rw [Bool.eq_iff_iff, beq_iff_eq, decide_eq_true_eq, Option.some.injEq, compare_gt_iff_gt]
  rw [exceeds, if_pos hnumber, hcompare, hgt]

theorem excess_eq (field : Letter) (v : Value) (n : Int) (h : v.toInt? = some n) (width : Nat) :
    excess field v width = .excess (.ofLetter field) n (.int width) := by
  simp [excess, h]

/-- Running the steps fails as the outcome does, or leaves the value of the outcome in the
variable. Besides, only variables that are numbered from `fresh` on may be assigned. -/
def Passes (steps : List Step) (env : Env) (fresh : Nat) (x : Name) :
    Except Error Int → Prop
  | .error e => steps.foldlM Step.run env = .error e
  | .ok u => ∃ env' : Env, steps.foldlM Step.run env = .ok env' ∧
      (env' x).toInt? = some u ∧ ∀ y, (∀ k, fresh ≤ k → y ≠ .saturated k) → env' y = env y

/-- The steps of one slot let a value pass or refuse it as the slot does. -/
theorem passes_adapt (slot : Slot) (fresh : Nat) (env : Env) (v : Int)
    (hv : (env (.letter slot.name)).toInt? = some v) :
    Passes (adapt slot (.letter slot.name) fresh).1 env fresh
      (adapt slot (.letter slot.name) fresh).2.1 (slot.pass v) := by
  have hskip : Passes [] env fresh (.letter slot.name) (.ok v) :=
    ⟨env, rfl, hv, fun _ _ => rfl⟩
  unfold Slot.pass adapt
  by_cases hchecked : slot.checked = true
  · rw [if_pos hchecked, if_pos hchecked]
    have hexceeds := exceeds_eq _ v hv (Bits.ones slot.width)
    cases hpolicy : slot.overflow with
    | truncate => exact hskip
    | corrupt => exact hskip
    | panic =>
      have hstep : Step.run env (.refuse (.letter slot.name) slot.name (.full slot.width)) =
          if (Bits.ones slot.width : Int) < v then
            .error (.excess (.ofLetter slot.name) v (.int slot.width))
          else .ok env := by
        simp only [Step.run, Constant.full, hexceeds, ok_bind, decide_eq_true_eq,
          excess_eq _ _ v hv]
      by_cases hover : (Bits.ones slot.width : Int) < v
      · rw [if_pos hover] at hstep ⊢
        simp only [Passes, List.foldlM_cons, hstep]
        rfl
      · rw [if_neg hover] at hstep ⊢
        refine ⟨env, ?_, hv, fun _ _ => rfl⟩
        simp only [List.foldlM_cons, hstep]
        rfl
    | saturate =>
      have hstep : ∃ w : Value, w.toInt? = some (min v (Bits.ones slot.width)) ∧
          Step.run env (.clamp (.saturated fresh) (.letter slot.name) (.full slot.width)) =
            .ok (env.set (.saturated fresh) w) := by
        by_cases hover : (Bits.ones slot.width : Int) < v
        · refine ⟨.int (Bits.ones slot.width), ?_, ?_⟩
          · rw [min_eq_right (by omega)]
            rfl
          · simp only [Step.run, Constant.full, hexceeds, ok_bind, hover, decide_true, if_true]
        · refine ⟨env (.letter slot.name), ?_, ?_⟩
          · rw [min_eq_left (by omega), hv]
          · simp [Step.run, Constant.full, hexceeds, hover]
      obtain ⟨w, hw, hrun⟩ := hstep
      refine ⟨env.set (.saturated fresh) w, ?_, ?_, ?_⟩
      · simp only [List.foldlM_cons, hrun]
        rfl
      · simp [Env.set, hw]
      · intro y hy
        simp [Env.set, hy fresh (Nat.le_refl _)]
  · rw [if_neg hchecked, if_neg hchecked]
    exact hskip

/-- The variable that a slot goes on with is not assigned by later slots. -/
theorem adapt_fresh (slot : Slot) (fresh : Nat) :
    fresh ≤ (adapt slot (.letter slot.name) fresh).2.2 ∧
      ∀ k, (adapt slot (.letter slot.name) fresh).2.2 ≤ k →
        (adapt slot (.letter slot.name) fresh).2.1 ≠ .saturated k := by
  unfold adapt
  split
  · split
    · simp
    · refine ⟨by simp, ?_⟩
      intro k hk heq
      simp only [Name.saturated.injEq] at heq hk
      omega
    · simp
    · simp
  · simp

/-- The variables hold integers, one for each. -/
def Holds (env : Env) (xs : List Name) (integers : List Int) : Prop :=
  List.Forall₂ (fun x n => (env x).toInt? = some n) xs integers

/-- Running the steps fails as the outcome does, or leaves its values in the variables. -/
def PassesAll (steps : List Step) (env : Env) (fresh : Nat) (xs : List Name) :
    Except Error (List Int) → Prop
  | .error e => steps.foldlM Step.run env = .error e
  | .ok us => ∃ env' : Env, steps.foldlM Step.run env = .ok env' ∧ Holds env' xs us ∧
      ∀ y, (∀ k, fresh ≤ k → y ≠ .saturated k) → env' y = env y

theorem adaptAll_cons (slot : Slot) (rest : List Slot) (fresh : Nat) :
    adaptAll (slot :: rest) fresh =
      ((adapt slot (.letter slot.name) fresh).1 ++
          (adaptAll rest (adapt slot (.letter slot.name) fresh).2.2).1,
        (adapt slot (.letter slot.name) fresh).2.1 ::
          (adaptAll rest (adapt slot (.letter slot.name) fresh).2.2).2) := rfl

theorem passesAll_adaptAll (slots : List Slot) (fresh : Nat) (env : Env) (integers : List Int)
    (h : List.Forall₂ (fun slot n => (env (.letter slot.name)).toInt? = some n) slots integers) :
    PassesAll (adaptAll slots fresh).1 env fresh (adaptAll slots fresh).2
      (passAll slots integers) := by
  induction slots generalizing fresh env integers with
  | nil =>
    cases h
    exact ⟨env, rfl, List.Forall₂.nil, fun _ _ => rfl⟩
  | cons slot rest ih =>
    cases h with
    | @cons _ n _ ns hn hrest =>
    have hfirst := passes_adapt slot fresh env n hn
    obtain ⟨hfresh, hsource⟩ := adapt_fresh slot fresh
    rw [adaptAll_cons, passAll_cons]
    cases hpass : slot.pass n with
    | error e =>
      simp only [hpass, Passes] at hfirst
      simp only [PassesAll, error_bind, List.foldlM_append, hfirst]
    | ok u =>
      rw [hpass] at hfirst
      obtain ⟨env₁, hrun₁, hu, hsame₁⟩ := hfirst
      -- Letters are never assigned, so the later slots still find their values.
      have hrest₁ : List.Forall₂
          (fun slot n => (env₁ (.letter slot.name)).toInt? = some n) rest ns := by
        refine hrest.imp ?_
        intro slot n hn
        rw [hsame₁ _ (by simp)]
        exact hn
      have hlater := ih (adapt slot (.letter slot.name) fresh).2.2 env₁ ns hrest₁
      rw [ok_bind]
      cases hall : passAll rest ns with
      | error e =>
        simp only [hall, PassesAll] at hlater
        simp only [map_error, PassesAll, List.foldlM_append, hrun₁, ok_bind, hlater]
      | ok us =>
        rw [hall] at hlater
        obtain ⟨env₂, hrun₂, hus, hsame₂⟩ := hlater
        refine ⟨env₂, ?_, ?_, ?_⟩
        · rw [List.foldlM_append, hrun₁, ok_bind]
          exact hrun₂
        · refine List.Forall₂.cons ?_ hus
          rw [hsame₂ _ hsource]
          exact hu
        · intro y hy
          rw [hsame₂ y fun k hk => hy k (by omega)]
          exact hsame₁ y hy

/-- The terms of a slot evaluate to the template bits of its value. A slot whose excess lies above
the template has no term for it, so only the bits of the template have to agree then. -/
theorem exists_deposit (slot : Slot) (source : Name) :
    ∃ terms, deposit slot.field.templateWidth slot source = .ok terms ∧
      ∀ (env : Env) (u : Int), (env source).toInt? = some u → ∃ pieces,
        terms.mapM (Term.eval env) = .ok pieces ∧
        ∀ b, b < slot.field.templateWidth ∨ slot.spills = false →
          ((∃ piece ∈ pieces, Bits.bit piece b = true) ↔ Bits.bit (slot.place u) b = true) := by
  obtain ⟨terms, hterms, heval⟩ := exists_terms (depositTerm slot.field.templateWidth source)
    Segment.deposit source slot.field.segments
    fun s hs => exists_depositTerm _ source s (slot.field.segment_mask_lt hs)
  have hdeposit : ∀ (u : Int) (b : Nat),
      (∃ piece ∈ slot.field.segments.map fun s => s.deposit u, Bits.bit piece b = true) ↔
        Bits.bit (slot.field.deposit u) b = true := by
    intro u b
    rw [Field.deposit, Bits.bit_union_iff]
  unfold deposit
  rw [hterms, ok_bind]
  by_cases hspill :
      (slot.spills && decide (slot.field.spillOffset < slot.field.templateWidth)) = true
  · refine ⟨_, if_pos hspill, ?_⟩
    intro env u hu
    refine ⟨(slot.field.segments.map fun s => s.deposit u) ++ [slot.field.spill u], ?_, ?_⟩
    · have hexcess : (Term.left (.right (.name source) slot.width) slot.field.spillOffset).eval env
          = .ok (slot.field.spill u) := by
        rw [Term.eval, Term.eval, eval_name env source u hu]
        rfl
      rw [List.mapM_append, heval env u hu]
      simp only [List.mapM_cons, hexcess]
      rfl
    · intro b _
      rw [Bool.and_eq_true] at hspill
      rw [Slot.place, if_pos hspill.1, Bits.bit_lor, Bool.or_eq_true, ← hdeposit]
      simp only [List.mem_append, List.mem_singleton, or_and_right, exists_or, exists_eq_left]
  · refine ⟨terms, if_neg hspill, ?_⟩
    intro env u hu
    refine ⟨_, heval env u hu, ?_⟩
    intro b hb
    rw [hdeposit, Slot.place]
    by_cases hspills : slot.spills = true
    · have hoffset : slot.field.templateWidth ≤ slot.field.spillOffset := by
        simpa [hspills] using hspill
      have hbelow : b < slot.field.templateWidth := by
        rcases hb with hb | hb
        · exact hb
        · rw [hspills] at hb
          cases hb
      have hexcess : Bits.bit (slot.field.spill u) b = false := by
        have hnot : ¬ slot.field.spillOffset ≤ b := by omega
        rw [Field.spill, Bits.bit_shiftLeft]
        simp [hnot]
      rw [if_pos hspills, Bits.bit_lor, hexcess, Bool.or_false]
    · rw [if_neg hspills]

theorem length_adaptAll (slots : List Slot) (fresh : Nat) :
    (adaptAll slots fresh).2.length = slots.length := by
  induction slots generalizing fresh with
  | nil => rfl
  | cons slot rest ih =>
    exact congrArg (· + 1) (ih (adapt slot (.letter slot.name) fresh).2.2)

/-- The terms of all slots together have the bits of what the slots place. -/
theorem exists_stored (width : Nat) (slots : List Slot) (sources : List Name)
    (hlength : sources.length = slots.length)
    (hwidth : ∀ slot ∈ slots, slot.field.templateWidth = width) :
    ∃ stored, (slots.zip sources).mapM (fun pair => deposit width pair.1 pair.2) = .ok stored ∧
      ∀ (env : Env) (us : List Int), Holds env sources us → ∃ pieces,
        stored.flatten.mapM (Term.eval env) = .ok pieces ∧
        ∀ b, b < width ∨ slots.any Slot.spills = false →
          ((∃ piece ∈ pieces, Bits.bit piece b = true) ↔
            ∃ piece ∈ List.zipWith Slot.place slots us, Bits.bit piece b = true) := by
  induction slots generalizing sources with
  | nil => exact ⟨[], rfl, fun _ _ _ => ⟨[], rfl, fun _ _ => by simp⟩⟩
  | cons slot rest ih =>
    cases sources with
    | nil => simp at hlength
    | cons source others =>
      have hslot : slot.field.templateWidth = width := hwidth slot (List.mem_cons_self ..)
      obtain ⟨terms, hterms, heval⟩ := exists_deposit slot source
      rw [hslot] at hterms heval
      obtain ⟨stored, hstored, hall⟩ := ih others (by simpa using hlength)
        fun slot' h' => hwidth slot' (List.mem_cons_of_mem _ h')
      refine ⟨terms :: stored, ?_, ?_⟩
      · rw [List.zip_cons_cons, mapM_cons, hterms, ok_bind, hstored, map_ok]
      · intro env us hus
        cases hus with
        | @cons _ u _ us hu hus =>
        obtain ⟨first, hfirst, hbits⟩ := heval env u hu
        obtain ⟨later, hlater, hlaterBits⟩ := hall env us hus
        refine ⟨first ++ later, ?_, ?_⟩
        · rw [List.flatten_cons, List.mapM_append, hfirst, hlater]
          rfl
        · intro b hb
          have hb₁ : b < width ∨ slot.spills = false := by
            rcases hb with hb | hb
            · exact Or.inl hb
            · simp only [List.any_cons, Bool.or_eq_false_iff] at hb
              exact Or.inr hb.1
          have hb₂ : b < width ∨ rest.any Slot.spills = false := by
            rcases hb with hb | hb
            · exact Or.inl hb
            · simp only [List.any_cons, Bool.or_eq_false_iff] at hb
              exact Or.inr hb.2
          rw [List.zipWith_cons_cons]
          simp only [List.mem_append, or_and_right, exists_or, List.mem_cons, exists_eq_left]
          rw [hbits b hb₁, hlaterBits b hb₂]

/-- A constant that is left out where it is zero has the same bits as if it were there. -/
theorem exists_unlessZero (n width : Nat) (term : Constant → Term) (hfits : n < 1 <<< width) :
    ∃ terms, unlessZero n width term = .ok terms ∧
      ∀ (env : Env) (x : Int), (term ⟨n, width, hfits⟩).eval env = .ok x → (n = 0 → x = 0) →
        ∃ pieces, terms.mapM (Term.eval env) = .ok pieces ∧
          ∀ b, (∃ piece ∈ pieces, Bits.bit piece b = true) ↔ Bits.bit x b = true := by
  unfold unlessZero
  by_cases hn : n = 0
  · refine ⟨[], if_pos hn, ?_⟩
    intro env x _ hx
    refine ⟨[], rfl, ?_⟩
    intro b
    simp [hx hn]
  · refine ⟨[term ⟨n, width, hfits⟩], ?_, ?_⟩
    · rw [if_neg hn, Constant.ofNat_eq_ok _ _ hfits, map_ok]
    · intro env x hx _
      refine ⟨[x], ?_, ?_⟩
      · rw [mapM_cons, hx]
        rfl
      · intro b
        simp

/-- The bits that are kept of a variable, which is none of the fresh ones, if there is one. -/
def Keeps (layout : Layout) (env : Env) : Option Name → Int → Prop
  | none, kept => kept = 0
  | some x, kept => (∀ k, x ≠ .saturated k) ∧
      ∃ t, (env x).toInt? = some t ∧ kept = layout.keptOf t

theorem exists_keptTerms (layout : Layout) (x? : Option Name) :
    ∃ terms : List Term,
      (match x? with
        | some x => unlessZero layout.template.placeholderMask layout.width (.mask (.name x))
        | none => .ok [] : Except Error (List Term)) = .ok terms ∧
      ∀ (env : Env) (kept : Int), Keeps layout env x? kept → ∃ pieces,
        terms.mapM (Term.eval env) = .ok pieces ∧
        ∀ b, (∃ piece ∈ pieces, Bits.bit piece b = true) ↔ Bits.bit kept b = true := by
  cases x? with
  | none =>
    refine ⟨[], rfl, ?_⟩
    intro env kept hkept
    refine ⟨[], rfl, ?_⟩
    intro b
    have hzero : kept = 0 := hkept
    simp [hzero]
  | some x =>
    have hfits : layout.template.placeholderMask < 1 <<< layout.width := by
      have h := maskOf_lt Cell.isPlaceholder layout.template.cells
      rwa [Template.length_cells] at h
    obtain ⟨terms, hterms, heval⟩ :=
      exists_unlessZero layout.template.placeholderMask layout.width (.mask (.name x)) hfits
    refine ⟨terms, hterms, ?_⟩
    intro env kept hkept
    obtain ⟨_, t, ht, hkeptOf⟩ := hkept
    have hmask : (Term.mask (.name x) ⟨_, _, hfits⟩).eval env = .ok (layout.keptOf t) := by
      rw [Term.eval, eval_name env x t ht]
      rfl
    have hzero : layout.template.placeholderMask = 0 → layout.keptOf t = 0 := by
      intro hmask0
      apply Bits.eq_of_bit_eq
      intro b
      simp [Layout.keptOf, hmask0]
    rw [hkeptOf]
    exact heval env _ hmask hzero

theorem Keeps.lt_width {layout : Layout} {env : Env} {x? : Option Name} {kept : Int}
    (h : Keeps layout env x? kept) {b : Nat} (hb : Bits.bit kept b = true) : b < layout.width := by
  cases x? with
  | none =>
    have hzero : kept = 0 := h
    simp [hzero] at hb
  | some x =>
    obtain ⟨_, t, _, hkept⟩ := h
    rw [hkept, Layout.bit_keptOf_iff] at hb
    obtain ⟨_, p, _, hsum⟩ := hb
    omega

/-- Nothing that is assembled lies outside of the template, if no slot spills. -/
theorem lt_width_of_bit (layout : Layout) (slots : List Slot) (us : List Int)
    (hwidth : ∀ slot ∈ slots, slot.field.templateWidth = layout.width)
    (hspills : slots.any Slot.spills = false) {b : Nat}
    (h : layout.template.literalValue.testBit b = true ∨
      ∃ piece ∈ List.zipWith Slot.place slots us, Bits.bit piece b = true) :
    b < layout.width := by
  rcases h with hliteral | ⟨piece, hpiece, hbit⟩
  · obtain ⟨p, _, _, _, hsum⟩ := (testBit_maskOf_iff Cell.isOne _ b).mp hliteral
    rw [Template.length_cells] at hsum
    change p + b + 1 = layout.width at hsum
    omega
  · rw [← List.map_uncurry_zip_eq_zipWith] at hpiece
    obtain ⟨⟨slot, u⟩, hpair, rfl⟩ := List.mem_map.mp hpiece
    have hslot := (List.of_mem_zip hpair).1
    have hnot : slot.spills = false := by
      simpa using List.any_eq_false.mp hspills slot hslot
    simp only [Function.uncurry_apply_pair, Slot.place, hnot] at hbit
    by_contra hge
    have hout := slot.field.bit_deposit_of_le u (b := b) (by rw [hwidth slot hslot]; omega)
    simp [hout] at hbit

/-- Code that only writes fresh variables leaves what is kept as it is. -/
theorem Keeps.frame {layout : Layout} {env env' : Env} {x? : Option Name} {kept : Int}
    (h : Keeps layout env x? kept) (hsame : ∀ x, (∀ k, x ≠ .saturated k) → env' x = env x) :
    Keeps layout env' x? kept := by
  cases x? with
  | none => exact h
  | some x =>
    obtain ⟨hx, t, ht, hkept⟩ := h
    exact ⟨hx, t, by rw [hsame x hx]; exact ht, hkept⟩

/-- A union of the right bits has to be cut to the template only if some slot spills. -/
theorem cut_eq_assemble (layout : Layout) (slots : List Slot) (us : List Int) (kept union : Int)
    (hwidth : ∀ slot ∈ slots, slot.field.templateWidth = layout.width)
    (hkept : ∀ b, Bits.bit kept b = true → b < layout.width)
    (hbits : ∀ b, b < layout.width ∨ slots.any Slot.spills = false →
      (Bits.bit union b = true ↔
        Bits.bit kept b = true ∨ layout.template.literalValue.testBit b = true ∨
          ∃ piece ∈ List.zipWith Slot.place slots us, Bits.bit piece b = true)) :
    (if slots.any Slot.spills then Bits.land union (Bits.ones layout.width) else union) =
      layout.assemble kept slots us := by
  apply Bits.eq_of_bit_eq
  intro b
  rw [Bool.eq_iff_iff, Layout.bit_assemble]
  by_cases hspills : slots.any Slot.spills = true
  · rw [if_pos hspills, Bits.bit_land, Bits.bit_natCast, Bool.and_eq_true, Bits.testBit_ones,
      decide_eq_true_eq, and_comm]
    exact and_congr_right fun hb => hbits b (Or.inl hb)
  · have hnone : slots.any Slot.spills = false := by simpa using hspills
    rw [if_neg hspills, hbits b (Or.inr hnone)]
    constructor
    · intro h
      refine ⟨?_, h⟩
      rcases h with h | h
      · exact hkept b h
      · exact lt_width_of_bit layout slots us hwidth hnone h
    · intro h
      exact h.2

/-- The code of a combination lets the same values pass as its slots, and assembles the same
integer of them. -/
theorem exists_combine (layout : Layout) (slots : List Slot) (x? : Option Name)
    (hwidth : ∀ slot ∈ slots, slot.field.templateWidth = layout.width) :
    ∃ steps e, combine layout slots x? = .ok (steps, e) ∧
      ∀ (env : Env) (integers : List Int) (kept : Int), Keeps layout env x? kept →
        List.Forall₂ (fun slot n => (env (.letter slot.name)).toInt? = some n) slots integers →
        (steps.foldlM Step.run env >>= fun env' => e.eval env') =
          (passAll slots integers).map fun us => .int (layout.assemble kept slots us) := by
  obtain ⟨keptTerms, hkeptTerms, hkeptBits⟩ := exists_keptTerms layout x?
  obtain ⟨stored, hstored, hstoredBits⟩ :=
    exists_stored layout.width slots (adaptAll slots 0).2 (length_adaptAll slots 0) hwidth
  have hfits : layout.template.literalValue < 1 <<< layout.width := by
    have h := maskOf_lt Cell.isOne layout.template.cells
    rwa [Template.length_cells] at h
  obtain ⟨fixed, hfixed, hfixedBits⟩ :=
    exists_unlessZero layout.template.literalValue layout.width .constant hfits
  have hcombine : combine layout slots x? = .ok ((adaptAll slots 0).1,
      if slots.any Slot.spills then
        .bounded (keptTerms ++ stored.flatten ++ fixed) (.full layout.width)
      else .union (keptTerms ++ stored.flatten ++ fixed)) := by
    unfold combine
    cases x? with
    | none =>
      have hnone : [] = keptTerms := Except.ok.inj hkeptTerms
      simp only [← hnone, hstored, hfixed, ok_bind]
      split <;> rfl
    | some x =>
      have hsome : unlessZero layout.template.placeholderMask layout.width (.mask (.name x)) =
          .ok keptTerms := hkeptTerms
      simp only [hsome, hstored, hfixed, ok_bind]
      split <;> rfl
  refine ⟨_, _, hcombine, ?_⟩
  intro env integers kept hkept hvalues
  have hpasses := passesAll_adaptAll slots 0 env integers hvalues
  cases hpass : passAll slots integers with
  | error e =>
    simp only [hpass, PassesAll] at hpasses
    rw [hpasses, error_bind, map_error]
  | ok us =>
    rw [hpass] at hpasses
    obtain ⟨env', hrun, hus, hsame⟩ := hpasses
    rw [hrun, ok_bind, map_ok]
    have hkept' := hkept.frame fun x hx => hsame x fun k _ => hx k
    obtain ⟨ks, hks, hksBits⟩ := hkeptBits env' kept hkept'
    obtain ⟨ss, hss, hssBits⟩ := hstoredBits env' us hus
    obtain ⟨fs, hfs, hfsBits⟩ := hfixedBits env' layout.template.literalValue rfl (by simp)
    have hunion : evalUnion env' (keptTerms ++ stored.flatten ++ fixed) =
        .ok (Bits.union (ks ++ ss ++ fs)) := by
      rw [evalUnion, List.mapM_append, List.mapM_append, hks, hss, hfs]
      rfl
    have hcut := cut_eq_assemble layout slots us kept (Bits.union (ks ++ ss ++ fs)) hwidth
      (fun b hb => hkept.lt_width hb) (by
        intro b hb
        rw [Bits.bit_union_iff]
        simp only [List.mem_append, or_and_right, exists_or]
        rw [hksBits b, hssBits b hb, hfsBits b, Bits.bit_natCast, or_assoc]
        exact or_congr_right or_comm)
    by_cases hspills : slots.any Slot.spills = true
    · rw [if_pos hspills] at hcut
      rw [if_pos hspills, Expr.eval, hunion, ok_bind, ← hcut]
      rfl
    · rw [if_neg hspills] at hcut
      rw [if_neg hspills, Expr.eval, hunion, ok_bind, ← hcut]
      rfl

end BitTemplate.Program
