import BitTemplate.Proofs.RoundTrip

/-!
The policy that refuses values looks at the upper end of a slot only. A combination under this
policy returns a result exactly if no value exceeds its slot, and otherwise refuses the first value
that does. A result has the values modulo the sizes of their slots. Values that are not negative
are therefore never confused with each other, while a negative value passes and is stored like the
value that it is congruent to.
-/
namespace BitTemplate

open Failure

namespace Layout

/-- Whether a letter has a value that takes more bits than the letter has cells. -/
def Exceeds (l : Layout) (value : Letter → Int) (a : Letter) : Prop :=
  2 ^ l.template.cells.count (.field a) ≤ value a

instance (l : Layout) (value : Letter → Int) (a : Letter) : Decidable (l.Exceeds value a) :=
  inferInstanceAs (Decidable (_ ≤ _))

/-- The answer to the value of one letter. -/
def answer (l : Layout) (value : Letter → Int) (a : Letter) : Except Error Int :=
  if l.Exceeds value a then
    .error (.excess (.ofLetter a) (value a) (.int (l.template.cells.count (.field a))))
  else .ok (value a)

theorem exists_answer_iff (l : Layout) (value : Letter → Int) (a : Letter) :
    (∃ v, l.answer value a = .ok v) ↔ ¬ l.Exceeds value a := by
  unfold answer
  split <;> simp [*]

theorem answer_eq_error_iff (l : Layout) (value : Letter → Int) (a : Letter) (e : Error) :
    l.answer value a = .error e ↔ l.Exceeds value a ∧
      e = .excess (.ofLetter a) (value a) (.int (l.template.cells.count (.field a))) := by
  unfold answer
  split <;> simp [*, eq_comm]

/-- The letters are asked in their order. -/
theorem passAll_panic (l : Layout) (value : Letter → Int) :
    passAll (l.undeclared .panic) (l.names.map value) = l.names.mapM (l.answer value) := by
  rw [passAll_undeclared, names, List.mapM_map]
  apply mapM_congr
  intro f hf
  obtain ⟨a, ha, rfl⟩ := (l.mem_fields_iff f).mp hf
  rw [Template.width_field]
  have hexceeds : (Overflow.panic = .panic ∧
      2 ^ l.template.cells.count (.field a) - 1 < value (l.template.field a ha).name) ↔
      l.Exceeds value a := by
    unfold Exceeds
    change _ ∧ _ < value a ↔ _
    simp only [true_and]
    omega
  exact if_congr hexceeds rfl rfl

/-- Two lists of values show in the same integer exactly if their cells cannot tell them apart. -/
theorem shows_same_iff {l : Layout} {value value' : Letter → Int} {r r' : Int}
    (h : Shows l.template.cells 0 value r) (h' : Shows l.template.cells 0 value' r') :
    r = r' ↔ ∀ a ∈ l.names, value a % 2 ^ l.template.cells.count (.field a) =
      value' a % 2 ^ l.template.cells.count (.field a) := by
  constructor
  · intro hsame a ha
    rw [names_eq] at ha
    have hf := (l.mem_fields_iff _).mpr ⟨a, ha, rfl⟩
    have hfirst := extract_of_shows h hf
    have hsecond := extract_of_shows h' hf
    rw [hsame, hsecond, Template.width_field] at hfirst
    exact hfirst.symm
  · intro hmod
    refine h.unique h' ?_
    intro p cell hcell
    cases cell with
    | literal digit => rfl
    | placeholder => rfl
    | field a =>
      have hmem := List.mem_of_getElem? hcell
      have hpos : 0 < l.template.cells.count (.field a) := List.count_pos_iff.mpr hmem
      have ha : a ∈ l.names := by
        rw [names_eq]
        exact (l.template.mem_names a).mpr hmem
      obtain ⟨i, hi⟩ : ∃ i, i = l.template.cells.count (.field a) - 1 -
        (l.template.cells.take p).count (.field a) := ⟨_, rfl⟩
      have hlt : i < l.template.cells.count (.field a) := by omega
      have hbit := congrArg (Bits.bit · i) (hmod a ha)
      simp only [Bits.bit_emod_two_pow, hlt, decide_true, Bool.true_and] at hbit
      rw [cellBit, cellBit, ← hi]
      exact hbit

end Layout

section

variable {s : StorageSettings} {fallback : Option String} {c : Combination}
  (hc : Combination.make s fallback = .ok c) (hpolicy : Overflow.ofValue s.overflow = .ok .panic)
  (hwidths : s.widths = .none) {value : Letter → Int} {values : List Value}
  (hvalues : Stands values (c.layout.names.map value))

include hc hpolicy hwidths hvalues

theorem Combination.call_panic : c.call values [] =
    (c.layout.names.mapM (c.layout.answer value)).map fun us =>
      .value (.int (c.layout.assemble 0 (c.layout.undeclared .panic) us)) := by
  rw [Combination.call_positional hc hvalues,
    Depositing.slots_of_make (Combination.make_iff.mp hc) hpolicy hwidths,
    Layout.passAll_panic]

/-- All values of a list without excess show in its result. -/
theorem Combination.call_of_not_exceeds (h : ∀ a ∈ c.layout.names, ¬ c.layout.Exceeds value a) :
    ∃ r, c.call values [] = .ok (.value (.int r)) ∧ Shows c.layout.template.cells 0 value r := by
  obtain ⟨us, hus⟩ := exists_mapM fun a ha => (c.layout.exists_answer_iff value a).mpr (h a ha)
  have hcall := Combination.call_panic hc hpolicy hwidths hvalues
  rw [hus, map_ok] at hcall
  rw [← Layout.passAll_panic] at hus
  have hshows := Layout.shows_undeclared (by decide) 0 hus
  rw [Layout.keptOf_zero] at hshows
  exact ⟨_, hcall, hshows⟩

/-- The first value in excess is refused. -/
theorem Combination.call_eq_error_iff (e : Error) :
    c.call values [] = .error e ↔ ∃ before a after, c.layout.names = before ++ a :: after ∧
      (∀ b ∈ before, ¬ c.layout.Exceeds value b) ∧ c.layout.Exceeds value a ∧
      e = .excess (.ofLetter a) (value a) (.int (c.layout.template.cells.count (.field a))) := by
  rw [Combination.call_panic hc hpolicy hwidths hvalues, map_eq_error_iff, mapM_eq_error_iff]
  simp only [Layout.exists_answer_iff, Layout.answer_eq_error_iff]

theorem Combination.exists_call_iff :
    (∃ o, c.call values [] = .ok o) ↔ ∀ a ∈ c.layout.names, ¬ c.layout.Exceeds value a := by
  constructor
  · intro h a ha
    obtain ⟨o, ho⟩ := h
    rw [Combination.call_panic hc hpolicy hwidths hvalues, map_eq_ok_iff] at ho
    obtain ⟨us, hus, _⟩ := ho
    exact (c.layout.exists_answer_iff value a).mp (exists_of_mapM hus ha)
  · intro h
    obtain ⟨r, hr, _⟩ := Combination.call_of_not_exceeds hc hpolicy hwidths hvalues h
    exact ⟨_, hr⟩

/-- Two results are the same exactly if the values are congruent, letter by letter. -/
theorem Combination.call_same_iff {value' : Letter → Int} {values' : List Value} {o o' : Outcome}
    (hvalues' : Stands values' (c.layout.names.map value')) (h : c.call values [] = .ok o)
    (h' : c.call values' [] = .ok o') :
    o = o' ↔ ∀ a ∈ c.layout.names, value a % 2 ^ c.layout.template.cells.count (.field a) =
      value' a % 2 ^ c.layout.template.cells.count (.field a) := by
  have hunder := (Combination.exists_call_iff hc hpolicy hwidths hvalues).mp ⟨o, h⟩
  have hunder' := (Combination.exists_call_iff hc hpolicy hwidths hvalues').mp ⟨o', h'⟩
  obtain ⟨r, hr, hshows⟩ := Combination.call_of_not_exceeds hc hpolicy hwidths hvalues hunder
  obtain ⟨r', hr', hshows'⟩ := Combination.call_of_not_exceeds hc hpolicy hwidths hvalues' hunder'
  rw [h] at hr
  rw [h'] at hr'
  cases hr
  cases hr'
  rw [← Layout.shows_same_iff hshows hshows']
  simp

end

/-- A combination that refuses values returns a result exactly if no value exceeds its cells, and
otherwise names the first that does. Two of its results are the same exactly if the values are
congruent, so it never confuses values that are not negative. -/
theorem panic_refuses_excess_only {s : StorageSettings} {fallback : Option String}
    {c : Combination} (hc : Combination.make s fallback = .ok c)
    (hpolicy : Overflow.ofValue s.overflow = .ok .panic) (hwidths : s.widths = .none) :
    (∀ value values, Stands values (c.layout.names.map value) →
      ((∃ o, c.call values [] = .ok o) ↔ ∀ a ∈ c.layout.names, ¬ c.layout.Exceeds value a) ∧
      ∀ e, c.call values [] = .error e ↔ ∃ before a after,
        c.layout.names = before ++ a :: after ∧
        (∀ b ∈ before, ¬ c.layout.Exceeds value b) ∧ c.layout.Exceeds value a ∧
        e = .excess (.ofLetter a) (value a) (.int (c.layout.template.cells.count (.field a)))) ∧
    (∀ value value' values values' o o', Stands values (c.layout.names.map value) →
      Stands values' (c.layout.names.map value') → c.call values [] = .ok o →
      c.call values' [] = .ok o' →
      (o = o' ↔ ∀ a ∈ c.layout.names, value a % 2 ^ c.layout.template.cells.count (.field a) =
        value' a % 2 ^ c.layout.template.cells.count (.field a)) ∧
      ((∀ a ∈ c.layout.names, 0 ≤ value a ∧ 0 ≤ value' a) →
        (o = o' ↔ ∀ a ∈ c.layout.names, value a = value' a))) := by
  constructor
  · intro value values hvalues
    exact ⟨Combination.exists_call_iff hc hpolicy hwidths hvalues,
      Combination.call_eq_error_iff hc hpolicy hwidths hvalues⟩
  · intro value value' values values' o o' hvalues hvalues' ho ho'
    have hsame := Combination.call_same_iff hc hpolicy hwidths hvalues hvalues' ho ho'
    refine ⟨hsame, ?_⟩
    intro hnonneg
    have hunder := (Combination.exists_call_iff hc hpolicy hwidths hvalues).mp ⟨o, ho⟩
    have hunder' := (Combination.exists_call_iff hc hpolicy hwidths hvalues').mp ⟨o', ho'⟩
    rw [hsame]
    refine forall₂_congr ?_
    intro a ha
    rw [Int.emod_eq_of_lt (hnonneg a ha).1 (not_le.mp (hunder a ha)),
      Int.emod_eq_of_lt (hnonneg a ha).2 (not_le.mp (hunder' a ha))]

/-- Three bits refuse a nine and accept a negative value, which is stored as a positive one is. -/
theorem panic_refuses_excess_only_interleaved :
    ∃ c, Combination.make { template := .text "ab1b0aba", overflow := .text "panic" } none =
        .ok c ∧
      c.call [.int 9, .int 6] [] = .error (.excess (.text "a") 9 (.int 3)) ∧
      ∃ o, c.call [.int 5, .int (-6)] [] = .ok o ∧ c.call [.int 5, .int 2] [] = .ok o := by
  obtain ⟨high, hhigh⟩ : ∃ high : Letter → Int, high = fun a =>
      if a.char = 'a' then 9 else 6 := ⟨_, rfl⟩
  obtain ⟨low, hlow⟩ : ∃ low : Letter → Int, low = fun a =>
      if a.char = 'a' then 5 else -6 := ⟨_, rfl⟩
  obtain ⟨fit, hfit⟩ : ∃ fit : Letter → Int, fit = fun a =>
      if a.char = 'a' then 5 else 2 := ⟨_, rfl⟩
  have heval : (Combination.make { template := .text "ab1b0aba", overflow := .text "panic" }
      none).map (fun c => (c.layout.names.map fun a => (Value.ofLetter a, high a,
          c.layout.template.cells.count (.field a), decide (c.layout.Exceeds high a)),
        c.layout.names.map low, c.layout.names.map fit,
        c.layout.names.all fun a => decide (¬ c.layout.Exceeds low a ∧ ¬ c.layout.Exceeds fit a ∧
          low a % 2 ^ c.layout.template.cells.count (.field a) =
            fit a % 2 ^ c.layout.template.cells.count (.field a)))) =
      .ok ([(.text "a", 9, 3, true), (.text "b", 6, 3, false)], [5, -6], [5, 2], true) := by
    subst hhigh hlow hfit
    rfl
  rw [map_eq_ok_iff] at heval
  obtain ⟨c, hc, hfacts⟩ := heval
  simp only [Prod.mk.injEq, List.all_eq_true, decide_eq_true_eq] at hfacts
  obtain ⟨hrefused, hlows, hfits, hsame⟩ := hfacts
  obtain ⟨hsettled, hpairs⟩ := panic_refuses_excess_only hc rfl rfl
  have hstands : ∀ (m n : Int) (value : Letter → Int), c.layout.names.map value = [m, n] →
      Stands [.int m, .int n] (c.layout.names.map value) := by
    intro m n value h
    rw [h]
    exact .cons rfl (.cons rfl .nil)
  have hhighs : c.layout.names.map high = [9, 6] := by
    have hvalues := congrArg (List.map fun entry => entry.2.1) hrefused
    rwa [List.map_map] at hvalues
  obtain ⟨a, rest, hnames, hfirst, _⟩ := List.map_eq_cons_iff.mp hrefused
  simp only [Prod.mk.injEq, decide_eq_true_eq] at hfirst
  obtain ⟨hletter, hvalue, hcount, hexceeds⟩ := hfirst
  have herror := ((hsettled high _ (hstands 9 6 high hhighs)).2 _).mpr
    ⟨[], a, rest, hnames, by simp, hexceeds, rfl⟩
  rw [hletter, hvalue, hcount] at herror
  obtain ⟨o, ho⟩ := (hsettled low _ (hstands 5 (-6) low hlows)).1.mpr fun a ha => (hsame a ha).1
  obtain ⟨o', ho'⟩ := (hsettled fit _ (hstands 5 2 fit hfits)).1.mpr fun a ha => (hsame a ha).2.1
  have heq := (hpairs low fit _ _ o o' (hstands 5 (-6) low hlows) (hstands 5 2 fit hfits) ho
    ho').1.mpr fun a ha => (hsame a ha).2.2
  exact ⟨c, hc, herror, o, ho, heq ▸ ho'⟩

/-- A negative value in eight bits passes both engines and gives the result of another value. -/
theorem panic_stores_negative :
    ∃ c i, Combination.make ⟨.text "aaaaaaaa", .base .binary, .text "panic", .none,
        .text "compiled"⟩ none = .ok c ∧
      Combination.make ⟨.text "aaaaaaaa", .base .binary, .text "panic", .none,
        .text "interpreted"⟩ none = .ok i ∧
      c.call [.int (-1)] [] = .ok (.value (.int 255)) ∧
      c.call [.int 255] [] = .ok (.value (.int 255)) ∧
      i.call [.int (-1)] [] = .ok (.value (.int 255)) ∧
      i.call [.int 255] [] = .ok (.value (.int 255)) := by
  -- Both engines have the same layout, and one letter that fills it.
  have hcall : ∀ {engine : Value} {c : Combination}, Combination.make ⟨.text "aaaaaaaa",
      .base .binary, .text "panic", .none, engine⟩ none = .ok c →
      c.layout.names.map (fun a => c.layout.template.cells.count (.field a)) = [8] →
      ∀ n < 256, c.layout.assemble 0 (c.layout.undeclared .panic) [n] = 255 →
        c.call [.int n] [] = .ok (.value (.int 255)) := by
    intro engine c hc hcounts n hn hshown
    obtain ⟨a, hnames, hcount⟩ := List.map_eq_singleton_iff.mp hcounts
    have hstands : Stands [.int n] (c.layout.names.map fun _ => n) := by
      rw [hnames]
      exact .cons rfl .nil
    have hanswer : c.layout.answer (fun _ => n) a = .ok n := by
      refine if_neg ?_
      rw [Layout.Exceeds, hcount]
      omega
    rw [Combination.call_panic hc rfl rfl hstands, hnames, mapM_cons, hanswer, ok_bind]
    exact congrArg (fun r => Except.ok (Outcome.value (.int r))) hshown
  have hlayout : ∀ engine, engine = .text "compiled" ∨ engine = .text "interpreted" →
      (Combination.make ⟨.text "aaaaaaaa", .base .binary, .text "panic", .none, engine⟩ none).map
        (fun c => (c.layout.names.map fun a => c.layout.template.cells.count (.field a),
          c.layout.assemble 0 (c.layout.undeclared .panic) [-1],
          c.layout.assemble 0 (c.layout.undeclared .panic) [255])) = .ok ([8], 255, 255) := by
    rintro _ (rfl | rfl) <;> rfl
  obtain ⟨c, hc, hfacts⟩ := (map_eq_ok_iff _ _ _).mp (hlayout _ (.inl rfl))
  obtain ⟨i, hi, hfacts'⟩ := (map_eq_ok_iff _ _ _).mp (hlayout _ (.inr rfl))
  simp only [Prod.mk.injEq] at hfacts hfacts'
  obtain ⟨hcounts, hnegative, hlargest⟩ := hfacts
  obtain ⟨hcounts', hnegative', hlargest'⟩ := hfacts'
  exact ⟨c, i, hc, hi, hcall hc hcounts _ (by decide) hnegative,
    hcall hc hcounts _ (by decide) hlargest, hcall hi hcounts' _ (by decide) hnegative',
    hcall hi hcounts' _ (by decide) hlargest'⟩

end BitTemplate
