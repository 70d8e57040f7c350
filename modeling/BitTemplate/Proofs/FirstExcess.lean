import BitTemplate.Proofs.Settling

/-!
When storing values fails. Only the policy that refuses values can make an operation fail on
integers. It refuses the first letter of the template whose value is above the largest one that
its cells can show, unless the values of the letter are declared to fit. If there is no such
letter, the operation returns what cutting the values off returns.
-/
namespace BitTemplate

open Failure

namespace Template

/-- Whether a letter has a value above the largest one that its cells can show, although its values
are not declared to fit. -/
def Oversized (t : Template) (declared : Letter → Option Int) (value : Letter → Int) (a : Letter) :
    Prop :=
  (∀ d, declared a = some d → (t.cells.count (.field a) : Int) < d) ∧
    2 ^ t.cells.count (.field a) - 1 < value a

/-- An error that names the first letter with an oversized value, in order of first occurrence, with
that value and the number of its cells. -/
def FirstExcess (t : Template) (declared : Letter → Option Int) (value : Letter → Int)
    (e : Error) : Prop :=
  ∃ before a after, t.names = before ++ a :: after ∧
    (∀ b ∈ before, ¬ t.Oversized declared value b) ∧ t.Oversized declared value a ∧
    e = .excess (.ofLetter a) (value a) (.int (t.cells.count (.field a)))

theorem exists_firstExcess {t : Template} {declared : Letter → Option Int} {value : Letter → Int}
    {a : Letter} (ha : a ∈ t.names) (h : t.Oversized declared value a) :
    ∃ b, t.FirstExcess declared value
      (.excess (.ofLetter b) (value b) (.int (t.cells.count (.field b)))) := by
  classical
  obtain ⟨b, hb⟩ : ∃ b, t.names.find? (fun b => t.Oversized declared value b) = some b := by
    rw [← Option.isSome_iff_exists, List.find?_isSome]
    exact ⟨a, ha, decide_eq_true h⟩
  obtain ⟨hover, before, after, hsplit, hbefore⟩ := List.find?_eq_some_iff_append.mp hb
  refine ⟨b, before, b, after, hsplit, ?_, of_decide_eq_true hover, rfl⟩
  intro c hc
  simpa using hbefore c hc

/-- How an operation that refuses values answers, compared with one that cuts them off. -/
structure Refuses (t : Template) (declared : Letter → Option Int) (value : Letter → Int)
    (answer truncated : Except Error Outcome) : Prop where
  raises_iff : (∃ e, answer = .error e ∧ e.errorClass = .fieldOverflow) ↔
    ∃ a ∈ t.names, t.Oversized declared value a
  error_iff : ∀ e, answer = .error e ↔ t.FirstExcess declared value e
  otherwise : (∀ a ∈ t.names, ¬ t.Oversized declared value a) →
    ∃ o, answer = .ok o ∧ truncated = .ok o

end Template

namespace Slot

/-- A slot refuses a value exactly if its policy does, applies to it, and the value is too large. -/
theorem pass_eq_error_iff (s : Slot) (v : Int) (e : Error) :
    s.pass v = .error e ↔ s.overflow = .panic ∧ s.checked = true ∧ 2 ^ s.width - 1 < v ∧
      e = .excess (.ofLetter s.name) v (.int s.width) := by
  unfold pass
  rw [← Bits.ones_eq]
  by_cases hchecked : s.checked = true
  · rw [if_pos hchecked]
    cases s.overflow with
    | panic =>
      by_cases hover : (Bits.ones s.width : Int) < v
      · simp [hover, hchecked, eq_comm]
      · simp [hover]
    | truncate => simp
    | saturate => simp
    | corrupt => simp
  · rw [if_neg hchecked]
    simp [hchecked]

/-- What a refusing slot lets pass is left as it is. -/
theorem eq_of_pass_panic {s : Slot} (hpolicy : s.overflow = .panic) {v u : Int}
    (h : s.pass v = .ok u) : u = v := by
  unfold pass at h
  rw [hpolicy] at h
  simp only at h
  split at h
  · split at h
    · cases h
    · exact (Except.ok.inj h).symm
  · exact (Except.ok.inj h).symm

theorem exists_pass {s : Slot} (hpolicy : s.overflow ≠ .panic) (v : Int) :
    ∃ u, s.pass v = .ok u := by
  cases h : s.pass v with
  | ok u => exact ⟨u, rfl⟩
  | error e => exact absurd ((s.pass_eq_error_iff v e).mp h).1 hpolicy

theorem pass_truncate (s : Slot) (v : Int) : (s.under .truncate).pass v = .ok v := by
  unfold pass
  split <;> rfl

/-- Nothing spills from a slot that refuses or cuts off. -/
theorem place_under_truncate {s : Slot} (hpolicy : s.overflow = .panic) :
    (s.under .truncate).place = s.place := by
  funext v
  have hkeeps : (s.under .truncate).overflow ≠ .corrupt := by
    change Overflow.truncate ≠ .corrupt
    decide
  rw [place_eq_deposit hkeeps, place_eq_deposit (by rw [hpolicy]; decide)]
  rfl

end Slot

namespace Layout

section Settling

variable {l : Layout} {kept : Int} {slots : List Slot} {value : Letter → Int}

theorem settle_eq_error_iff (e : Error) :
    l.settle kept slots value = .error e ↔ ∃ before s after, slots = before ++ s :: after ∧
      (∀ s' ∈ before, ∃ u, s'.pass (value s'.name) = .ok u) ∧ s.pass (value s.name) = .error e := by
  rw [settle, map_eq_error_iff, passAll_map, mapM_eq_error_iff]

/-- Only one policy refuses values. -/
theorem exists_settle (hpolicy : ∀ s ∈ slots, s.overflow ≠ .panic) :
    ∃ n, l.settle kept slots value = .ok (.value (.int n)) := by
  obtain ⟨us, hus⟩ := exists_mapM (f := fun s : Slot => s.pass (value s.name)) fun s hs =>
    Slot.exists_pass (hpolicy s hs) (value s.name)
  rw [← passAll_map slots fun s => value s.name] at hus
  exact ⟨_, by rw [settle, hus, map_ok]⟩

/-- What is not refused is settled as if it were cut off. -/
theorem settle_under_truncate (hpolicy : ∀ s ∈ slots, s.overflow = .panic) {o : Outcome}
    (h : l.settle kept slots value = .ok o) :
    l.settle kept (slots.map fun s => s.under .truncate) value = .ok o := by
  obtain ⟨us, hus, rfl⟩ := (map_eq_ok_iff _ _ _).mp h
  rw [passAll_map] at hus
  have hsame := map_eq_of_mapM (g := id) (fun s hs u hu => Slot.eq_of_pass_panic (hpolicy s hs) hu)
    hus
  rw [List.map_id] at hsame
  have hpass : passAll (slots.map fun s => s.under .truncate)
      ((slots.map fun s => s.under .truncate).map fun s => value s.name) = .ok us := by
    rw [passAll_map, List.mapM_map, hsame, mapM_eq_ok_iff, List.forall₂_map_right_iff,
      List.forall₂_same]
    exact fun s _ => s.pass_truncate _
  have hplace : List.zipWith Slot.place (slots.map fun s => s.under .truncate) us =
      List.zipWith Slot.place slots us := by
    rw [hsame, List.zipWith_map, List.zipWith_map_right, List.zipWith_self, List.zipWith_self]
    apply List.map_congr_left
    intro s hs
    rw [Slot.place_under_truncate (hpolicy s hs)]
  rw [settle, hpass, map_ok, assemble, hplace]
  rfl

end Settling

/-- The slots that a policy applies to are those of the letters that are not declared to fit. -/
theorem pass_eq_error_iff_oversized {l : Layout} {slots : List Slot}
    (hfields : slots.map Slot.field = l.fields) (hpolicy : ∀ s ∈ slots, s.overflow = .panic)
    {declared : Letter → Option Int}
    (hdeclared : ∀ s ∈ slots, declared s.name = s.sourceWidth.map Numeral.toInt)
    (value : Letter → Int) {s : Slot} (hs : s ∈ slots) (e : Error) :
    s.pass (value s.name) = .error e ↔ l.template.Oversized declared value s.name ∧
      e = .excess (.ofLetter s.name) (value s.name)
        (.int (l.template.cells.count (.field s.name))) := by
  have hchecked : s.checked = true ↔ ∀ d, declared s.name = some d →
      (l.template.cells.count (.field s.name) : Int) < d := by
    rw [s.checked_eq_true_iff, hdeclared s hs, width_of_slot hfields hs]
    simp
  rw [s.pass_eq_error_iff, hchecked, width_of_slot hfields hs, Template.Oversized, and_assoc]
  simp [hpolicy s hs]

/-- Slots that refuse values settle them as the letters of their template demand. -/
theorem refuses_settle {l : Layout} (kept : Int) {slots : List Slot}
    (hfields : slots.map Slot.field = l.fields) (hpolicy : ∀ s ∈ slots, s.overflow = .panic)
    {declared : Letter → Option Int}
    (hdeclared : ∀ s ∈ slots, declared s.name = s.sourceWidth.map Numeral.toInt)
    (value : Letter → Int) :
    l.template.Refuses declared value (l.settle kept slots value)
      (l.settle kept (slots.map fun s => s.under .truncate) value) := by
  have hnames : l.template.names = slots.map Slot.name := by
    rw [names_of_slots hfields, names_eq]
  have hrefuses := fun s (hs : s ∈ slots) =>
    pass_eq_error_iff_oversized hfields hpolicy hdeclared value hs
  have hpasses : ∀ s ∈ slots, (∃ u, s.pass (value s.name) = .ok u) ↔
      ¬ l.template.Oversized declared value s.name := by
    intro s hs
    cases hpass : s.pass (value s.name) with
    | ok u => simpa using fun hover => by simpa [hpass] using (hrefuses s hs _).mpr ⟨hover, rfl⟩
    | error e => simpa using ((hrefuses s hs e).mp hpass).1
  have herror : ∀ e, l.settle kept slots value = .error e ↔
      l.template.FirstExcess declared value e := by
    intro e
    rw [settle_eq_error_iff, Template.FirstExcess, hnames]
    constructor
    · rintro ⟨before, s, after, rfl, hbefore, hs⟩
      obtain ⟨hover, he⟩ := (hrefuses s (by simp) e).mp hs
      refine ⟨before.map Slot.name, s.name, after.map Slot.name, by simp, ?_, hover, he⟩
      intro b hb
      obtain ⟨s', hs', rfl⟩ := List.mem_map.mp hb
      exact (hpasses s' (by simp [hs'])).mp (hbefore s' hs')
    · rintro ⟨before, a, after, hsplit, hbefore, hover, he⟩
      obtain ⟨first, later, rfl, rfl, hlater⟩ := List.map_eq_append_iff.mp hsplit
      obtain ⟨s, rest, rfl, rfl, rfl⟩ := List.map_eq_cons_iff.mp hlater
      refine ⟨first, s, rest, rfl, ?_, (hrefuses s (by simp) e).mpr ⟨hover, he⟩⟩
      intro s' hs'
      exact (hpasses s' (by simp [hs'])).mpr (hbefore _ (List.mem_map_of_mem hs'))
  refine ⟨?_, herror, ?_⟩
  · constructor
    · rintro ⟨e, h, _⟩
      obtain ⟨before, a, after, hsplit, _, hover, _⟩ := (herror _).mp h
      exact ⟨a, by simp [hsplit], hover⟩
    · rintro ⟨a, ha, hover⟩
      obtain ⟨b, hfirst⟩ := Template.exists_firstExcess ha hover
      exact ⟨_, (herror _).mpr hfirst, rfl⟩
  · intro hnone
    cases hsettle : l.settle kept slots value with
    | ok o => exact ⟨o, rfl, settle_under_truncate hpolicy hsettle⟩
    | error e =>
      obtain ⟨before, a, after, hsplit, _, hover, _⟩ := (herror e).mp hsettle
      exact absurd hover (hnone a (by simp [hsplit]))

/-- Slots are made with the policy and the widths that were given. -/
theorem declared_of_slot {l : Layout} {overflow widths : Value} {slots : List Slot}
    (h : l.makeSlots overflow widths = .ok slots) :
    ∀ s ∈ slots, (widths.declared? s.name).map Numeral.toInt = s.sourceWidth.map Numeral.toInt := by
  obtain ⟨policy, hpolicy, _⟩ := makeSlots_eq_ok h
  rw [makeSlots_eq_declared hpolicy h]
  intro s hs
  obtain ⟨f, _, rfl⟩ := List.mem_map.mp hs
  rfl

theorem policy_of_slot {l : Layout} {overflow widths : Value} {slots : List Slot}
    {policy : Overflow} (hpolicy : Overflow.ofValue overflow = .ok policy)
    (h : l.makeSlots overflow widths = .ok slots) : ∀ s ∈ slots, s.overflow = policy := by
  rw [makeSlots_eq_declared hpolicy h]
  intro s hs
  obtain ⟨f, _, rfl⟩ := List.mem_map.mp hs
  rfl

end Layout

section Storing

variable {s : StorageSettings} {fallback : Option String} {values bound : List Value}
  {keywords : List (Value × Value)} {value : Letter → Int}

theorem Combination.refuses_call {c : Combination} (h : Combination.make s fallback = .ok c)
    (hbind : c.layout.bind values keywords none = .ok bound)
    (hvalues : Stands bound (c.layout.names.map value))
    (hpolicy : Overflow.ofValue s.overflow = .ok .panic) {v : Value}
    (hv : Overflow.ofValue v = .ok .truncate) :
    ∃ c', Combination.make { s with overflow := v } fallback = .ok c' ∧
      c.layout.template.Refuses (fun a => (s.widths.declared? a).map Numeral.toInt) value
        (c.call values keywords) (c'.call values keywords) := by
  obtain ⟨_, _, _, _, _, _, hslots, _⟩ := (Combination.make_eq_ok_iff s fallback c).mp h
  obtain ⟨c', hc', hlayout, hslots'⟩ :=
    Combination.exists_make_slots h (Layout.makeSlots_under hslots hv)
  refine ⟨c', hc', ?_⟩
  rw [Combination.call_eq_settle h hbind hvalues,
    Combination.call_eq_settle hc' (hlayout ▸ hbind) (hlayout ▸ hvalues), hlayout, hslots']
  exact Layout.refuses_settle 0 (Combination.make_engines h).1
    (Layout.policy_of_slot hpolicy hslots) (Layout.declared_of_slot hslots) value

theorem Replacement.refuses_call {r : Replacement} (h : Replacement.make s fallback = .ok r)
    {target : Value} {t : Int} (htarget : target.toInt? = some t)
    (hbind : r.layout.bind values keywords none = .ok bound)
    (hvalues : Stands bound (r.layout.names.map value))
    (hpolicy : Overflow.ofValue s.overflow = .ok .panic) {v : Value}
    (hv : Overflow.ofValue v = .ok .truncate) :
    ∃ r', Replacement.make { s with overflow := v } fallback = .ok r' ∧
      r.layout.template.Refuses (fun a => (s.widths.declared? a).map Numeral.toInt) value
        (r.call target values keywords) (r'.call target values keywords) := by
  obtain ⟨_, _, _, _, _, hslots, _⟩ := (Replacement.make_eq_ok_iff s fallback r).mp h
  obtain ⟨r', hr', hlayout, hslots'⟩ :=
    Replacement.exists_make_slots h (Layout.makeSlots_under hslots hv)
  refine ⟨r', hr', ?_⟩
  rw [Replacement.call_eq_settle h htarget hbind hvalues,
    Replacement.call_eq_settle hr' htarget (hlayout ▸ hbind) (hlayout ▸ hvalues), hlayout, hslots']
  exact Layout.refuses_settle _ (Replacement.make_engines h).1
    (Layout.policy_of_slot hpolicy hslots) (Layout.declared_of_slot hslots) value

theorem Combination.exists_call {c : Combination} (h : Combination.make s fallback = .ok c)
    (hbind : c.layout.bind values keywords none = .ok bound)
    (hvalues : Stands bound (c.layout.names.map value)) {policy : Overflow}
    (hpolicy : Overflow.ofValue s.overflow = .ok policy) (hpanic : policy ≠ .panic) :
    ∃ n, c.call values keywords = .ok (.value (.int n)) := by
  obtain ⟨_, _, _, _, _, _, hslots, _⟩ := (Combination.make_eq_ok_iff s fallback c).mp h
  rw [Combination.call_eq_settle h hbind hvalues]
  apply Layout.exists_settle
  intro slot hslot
  rwa [Layout.policy_of_slot hpolicy hslots slot hslot]

theorem Replacement.exists_call {r : Replacement} (h : Replacement.make s fallback = .ok r)
    {target : Value} {t : Int} (htarget : target.toInt? = some t)
    (hbind : r.layout.bind values keywords none = .ok bound)
    (hvalues : Stands bound (r.layout.names.map value)) {policy : Overflow}
    (hpolicy : Overflow.ofValue s.overflow = .ok policy) (hpanic : policy ≠ .panic) :
    ∃ n, r.call target values keywords = .ok (.value (.int n)) := by
  obtain ⟨_, _, _, _, _, hslots, _⟩ := (Replacement.make_eq_ok_iff s fallback r).mp h
  rw [Replacement.call_eq_settle h htarget hbind hvalues]
  apply Layout.exists_settle
  intro slot hslot
  rwa [Layout.policy_of_slot hpolicy hslots slot hslot]

end Storing

namespace Transfer

variable {s : Settings} {fallback : Option String} {t : Transfer}

/-- A transfer stores in the fields of its output, under its policy, what is as wide as the letter
is in its input. -/
theorem slots_of_settings (h : make s fallback = .ok t) {policy : Overflow}
    (hpolicy : Overflow.ofValue s.overflow = .ok policy) :
    (t.slots.map Prod.fst).map Slot.field = t.output.fields ∧
      (∀ slot ∈ t.slots.map Prod.fst, slot.overflow = policy) ∧
      ∀ slot ∈ t.slots.map Prod.fst,
        suppliedWidth? t.inputs slot.name = slot.sourceWidth.map Numeral.toInt := by
  obtain ⟨_, _, template, _, policy', _, _, _, _, _, _, houtput, _, hpolicy', hslots, _⟩ :=
    (make_eq_ok_iff s fallback t).mp h
  rw [hpolicy] at hpolicy'
  cases hpolicy'
  obtain ⟨hfields, hlinked⟩ := mapM_link_eq_ok hslots
  refine ⟨by rwa [List.map_map], ?_, ?_⟩
  · intro slot hslot
    obtain ⟨pair, hpair, rfl⟩ := List.mem_map.mp hslot
    exact (hlinked pair hpair).2.1
  · intro slot hslot
    obtain ⟨pair, hpair, rfl⟩ := List.mem_map.mp hslot
    rw [suppliedWidth?_of_slot h hpair, (hlinked pair hpair).2.2]
    rfl

theorem refuses_run (h : make s fallback = .ok t) {values : List Value} {integers : List Int}
    (hlength : values.length = t.inputs.length) (hvalues : Stands values integers)
    (hpolicy : Overflow.ofValue s.overflow = .ok .panic) {v : Value}
    (hv : Overflow.ofValue v = .ok .truncate) :
    ∃ t', make { s with overflow := v } fallback = .ok t' ∧
      t.output.template.Refuses (suppliedWidth? t.inputs) (received t.inputs integers)
        (t.run values) (t'.run values) := by
  obtain ⟨t', ht', hinputs, houtput, hslots⟩ := exists_make_under h hv
  refine ⟨t', ht', ?_⟩
  obtain ⟨hfields, hpanic, hdeclared⟩ := slots_of_settings h hpolicy
  have hunder : t'.slots.map Prod.fst = (t.slots.map Prod.fst).map fun s => s.under .truncate := by
    rw [hslots, List.map_map, List.map_map]
    rfl
  rw [run_eq_settle h hlength hvalues, run_eq_settle ht' (hinputs ▸ hlength) hvalues, houtput,
    hinputs, hunder]
  exact Layout.refuses_settle 0 hfields hpanic hdeclared _

theorem exists_run (h : make s fallback = .ok t) {values : List Value} {integers : List Int}
    (hlength : values.length = t.inputs.length) (hvalues : Stands values integers)
    {policy : Overflow} (hpolicy : Overflow.ofValue s.overflow = .ok policy)
    (hpanic : policy ≠ .panic) : ∃ n, t.run values = .ok (.value (.int n)) := by
  rw [run_eq_settle h hlength hvalues]
  apply Layout.exists_settle
  intro slot hslot
  rwa [(slots_of_settings h hpolicy).2.1 slot hslot]

end Transfer

/-- An operation that refuses values fails exactly if some letter has an oversized value, and then
names the first such letter of its (output) template. Otherwise it returns what the same operation
returns that cuts values off. Under every other policy an operation returns an integer. -/
theorem panic_names_first_excess :
    (∀ s fallback c, Combination.make s fallback = .ok c →
      ∀ values keywords bound value, c.layout.bind values keywords none = .ok bound →
        Stands bound (c.layout.names.map value) →
        (Overflow.ofValue s.overflow = .ok .panic → ∀ v, Overflow.ofValue v = .ok .truncate →
          ∃ c', Combination.make { s with overflow := v } fallback = .ok c' ∧
            c.layout.template.Refuses (fun a => (s.widths.declared? a).map Numeral.toInt) value
              (c.call values keywords) (c'.call values keywords)) ∧
        ∀ policy, Overflow.ofValue s.overflow = .ok policy → policy ≠ .panic →
          ∃ n, c.call values keywords = .ok (.value (.int n))) ∧
    (∀ s fallback r, Replacement.make s fallback = .ok r →
      ∀ target t values keywords bound value, target.toInt? = some t →
        r.layout.bind values keywords none = .ok bound →
        Stands bound (r.layout.names.map value) →
        (Overflow.ofValue s.overflow = .ok .panic → ∀ v, Overflow.ofValue v = .ok .truncate →
          ∃ r', Replacement.make { s with overflow := v } fallback = .ok r' ∧
            r.layout.template.Refuses (fun a => (s.widths.declared? a).map Numeral.toInt) value
              (r.call target values keywords) (r'.call target values keywords)) ∧
        ∀ policy, Overflow.ofValue s.overflow = .ok policy → policy ≠ .panic →
          ∃ n, r.call target values keywords = .ok (.value (.int n))) ∧
    ∀ s fallback t, Transfer.make s fallback = .ok t →
      ∀ values integers, values.length = t.inputs.length → Stands values integers →
        (Overflow.ofValue s.overflow = .ok .panic → ∀ v, Overflow.ofValue v = .ok .truncate →
          ∃ t', Transfer.make { s with overflow := v } fallback = .ok t' ∧
            t.output.template.Refuses (Transfer.suppliedWidth? t.inputs)
              (Transfer.received t.inputs integers) (t.run values) (t'.run values)) ∧
        ∀ policy, Overflow.ofValue s.overflow = .ok policy → policy ≠ .panic →
          ∃ n, t.run values = .ok (.value (.int n)) := by
  refine ⟨?_, ?_, ?_⟩
  · intro s fallback c h values keywords bound value hbind hvalues
    exact ⟨fun hpolicy v hv => Combination.refuses_call h hbind hvalues hpolicy hv,
      fun policy hpolicy hpanic => Combination.exists_call h hbind hvalues hpolicy hpanic⟩
  · intro s fallback r h target t values keywords bound value htarget hbind hvalues
    exact ⟨fun hpolicy v hv => Replacement.refuses_call h htarget hbind hvalues hpolicy hv,
      fun policy hpolicy hpanic => Replacement.exists_call h htarget hbind hvalues hpolicy hpanic⟩
  · intro s fallback t h values integers hlength hvalues
    exact ⟨fun hpolicy v hv => Transfer.refuses_run h hlength hvalues hpolicy hv,
      fun policy hpolicy hpanic => Transfer.exists_run h hlength hvalues hpolicy hpanic⟩

/-- The first value here is too large but declared to fit, and the next two are refused in order. A
negative value is never refused. A transfer refuses in order of its output. -/
theorem panic_names_first_excess_mixed :
    (∃ c c', Combination.make ⟨.text "aab0bbcc", .base .binary, .text "panic",
          .dict [(.text "c", .int 5), (.text "a", .int 2)], .text "interpreted"⟩ none = .ok c ∧
      Combination.make ⟨.text "aab0bbcc", .base .binary, .text "truncate",
          .dict [(.text "c", .int 5), (.text "a", .int 2)], .text "interpreted"⟩ none = .ok c' ∧
      (∃ value : Letter → Int, c.layout.names.map value = [9, 8, 7] ∧
        c.layout.template.Refuses (fun a => ((Value.dict [(.text "c", .int 5),
            (.text "a", .int 2)]).declared? a).map Numeral.toInt) value
          (c.call [.int 9, .int 8, .int 7] []) (c'.call [.int 9, .int 8, .int 7] [])) ∧
      c.call [.int 9, .int 8, .int 7] [] = .error (.excess (.text "b") 8 (.int 3))) ∧
    (∃ r n, Replacement.make { template := .text "a..bb...", overflow := .text "saturate" } none =
        .ok r ∧ r.call (.int 31) [.int (-2), .int 4] [] = .ok (.value (.int n))) ∧
    ∃ t t', Transfer.make ⟨.text "aaaabbbb", .text "bb1aaa00", .base .binary,
          .text "panic", .none⟩ none = .ok t ∧
      Transfer.make ⟨.text "aaaabbbb", .text "bb1aaa00", .base .binary,
          .text "truncate", .none⟩ none = .ok t' ∧
      t.output.template.Refuses (Transfer.suppliedWidth? t.inputs)
        (Transfer.received t.inputs [255]) (t.run [.int 255]) (t'.run [.int 255]) ∧
      t.run [.int 255] = .error (.excess (.text "b") 15 (.int 2)) := by
  refine ⟨?_, ?_, ?_⟩
  · obtain ⟨value, hvalue⟩ : ∃ value : Letter → Int, value = fun a =>
        if a.char = 'a' then 9 else if a.char = 'b' then 8 else 7 := ⟨_, rfl⟩
    have heval : (Combination.make ⟨.text "aab0bbcc", .base .binary, .text "panic",
        .dict [(.text "c", .int 5), (.text "a", .int 2)], .text "interpreted"⟩ none).map (fun c =>
          (c.layout.names.map value, c.layout.bind [.int 9, .int 8, .int 7] [] none,
            c.call [.int 9, .int 8, .int 7] [])) =
        .ok ([9, 8, 7], .ok [.int 9, .int 8, .int 7],
          .error (.excess (.text "b") 8 (.int 3))) := by
      subst hvalue
      rfl
    rw [map_eq_ok_iff] at heval
    obtain ⟨c, hc, hfacts⟩ := heval
    simp only [Prod.mk.injEq] at hfacts
    obtain ⟨hvalues, hbind, hcall⟩ := hfacts
    have hstands : Stands [.int 9, .int 8, .int 7] (c.layout.names.map value) := by
      rw [hvalues]
      exact .cons rfl (.cons rfl (.cons rfl .nil))
    obtain ⟨c', hc', hrefuses⟩ := (panic_names_first_excess.1 _ none c hc _ [] _ value hbind
      hstands).1 rfl (.text "truncate") rfl
    exact ⟨c, c', hc, hc', ⟨value, hvalues, hrefuses⟩, hcall⟩
  · obtain ⟨value, hvalue⟩ : ∃ value : Letter → Int, value = fun a =>
        if a.char = 'a' then -2 else 4 := ⟨_, rfl⟩
    have heval : (Replacement.make { template := .text "a..bb...", overflow := .text "saturate" }
        none).map (fun r => (r.layout.names.map value,
          r.layout.bind [.int (-2), .int 4] [] none)) =
        .ok ([-2, 4], .ok [.int (-2), .int 4]) := by
      subst hvalue
      rfl
    rw [map_eq_ok_iff] at heval
    obtain ⟨r, hr, hfacts⟩ := heval
    simp only [Prod.mk.injEq] at hfacts
    obtain ⟨hvalues, hbind⟩ := hfacts
    have hstands : Stands [.int (-2), .int 4] (r.layout.names.map value) := by
      rw [hvalues]
      exact .cons rfl (.cons rfl .nil)
    obtain ⟨n, hn⟩ := (panic_names_first_excess.2.1 _ none r hr (.int 31) 31 _ [] _ value rfl hbind
      hstands).2 .saturate rfl (by decide)
    exact ⟨r, n, hr, hn⟩
  · have heval : (Transfer.make ⟨.text "aaaabbbb", .text "bb1aaa00", .base .binary,
          .text "panic", .none⟩ none).map (fun t => t.inputs.length) = .ok 1 := by rfl
    obtain ⟨t, ht, hlength⟩ := (map_eq_ok_iff _ _ _).mp heval
    have hrun : t.run [.int 255] = .error (.excess (.text "b") 15 (.int 2)) := by
      have hstands : Stands [.int 255] [255] := .cons rfl .nil
      rw [Transfer.run_of_make ht (by rw [hlength]; rfl) hstands]
      exact eq_of_map_eq_ok ht (fun t => (passAll (t.slots.map Prod.fst)
        (Program.transferred t.slots [255])).map fun us =>
          Program.single (t.output.assemble 0 (t.slots.map Prod.fst) us)) (by rfl)
    obtain ⟨t', ht', hrefuses⟩ := (panic_names_first_excess.2.2 _ none t ht [.int 255] [255]
      hlength.symm (.cons rfl .nil)).1 rfl (.text "truncate") rfl
    exact ⟨t, t', ht, ht', hrefuses, hrun⟩

end BitTemplate
