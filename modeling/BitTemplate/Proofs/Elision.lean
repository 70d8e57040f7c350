import BitTemplate.Proofs.Settling

/-!
What declared widths change. A letter whose values are declared to be no wider than its cells needs
no policy: its values are cut off, as if that were its policy, and all other letters keep the policy
that was chosen. As long as values are as wide as declared this makes no difference.
-/
namespace BitTemplate

open Failure

namespace Slot

/-- A policy that does not apply neither refuses nor lowers a value, and nothing spills. -/
theorem store_of_not_checked {s : Slot} (h : s.checked = false) (v : Int) :
    s.store v = .ok (s.field.deposit v) := by
  have hpass : s.pass v = .ok v := by
    unfold pass
    rw [h]
    rfl
  have hspills : s.spills = false := by
    unfold spills
    rw [h, Bool.false_and]
  rw [store_eq, hpass, map_ok, place, hspills]
  rfl

theorem store_truncate {s : Slot} (h : s.overflow = .truncate) (v : Int) :
    s.store v = .ok (s.field.deposit v) := by
  have hpass : s.pass v = .ok v := by
    unfold pass
    rw [h]
    split <;> rfl
  rw [store_eq, hpass, map_ok, place_eq_deposit (by rw [h]; decide)]

/-- The low bits of a value fit, and they are what a field takes of it. -/
theorem store_low (s : Slot) (v : Int) : s.store (v % 2 ^ s.width) = .ok (s.field.deposit v) := by
  have hpos : (0 : Int) < 2 ^ s.width := by positivity
  rw [s.store_of_fits (Int.emod_nonneg v hpos.ne') (Int.emod_lt_of_pos v hpos), width,
    ← Bits.land_ones, deposit_land_ones]

end Slot

namespace Layout

/-- Whether the values of a letter are declared to be no wider than its cells. -/
def skips (l : Layout) (widths : Value) (a : Letter) : Bool :=
  (widths.declared? a).any fun d => d.toInt ≤ (l.template.cells.count (.field a) : Int)

/-- The low bits of the values of letters that need no policy, and the values of all others. -/
def lowered (l : Layout) (widths : Value) (value : Letter → Int) (a : Letter) : Int :=
  if l.skips widths a then value a % 2 ^ l.template.cells.count (.field a) else value a

/-- Slots without declared widths that cut off the values of letters that need no policy. -/
def elided (l : Layout) (widths : Value) (policy : Overflow) : List Slot :=
  l.fields.map fun f => ⟨f, if l.skips widths f.name then .truncate else policy, none⟩

/-- Whether all values are as wide as declared. -/
def AsDeclared (l : Layout) (widths : Value) (value : Letter → Int) : Prop :=
  ∀ a ∈ l.names, ∀ d, widths.declared? a = some d → 0 ≤ value a ∧ value a < 2 ^ d.toInt.toNat

section Field

variable {l : Layout} {f : Field} (hf : f ∈ l.fields) (widths : Value) (policy : Overflow)

include hf

theorem width_eq_count : f.width = l.template.cells.count (.field f.name) := by
  obtain ⟨a, ha, rfl⟩ := (l.mem_fields_iff f).mp hf
  rw [Template.width_field]
  rfl

theorem checked_declared :
    (⟨f, policy, widths.declared? f.name⟩ : Slot).checked = !l.skips widths f.name := by
  unfold Slot.checked skips Slot.width
  rw [width_eq_count hf]
  cases widths.declared? f.name with
  | none => rfl
  | some d =>
    rw [Option.any_some, Bool.eq_iff_iff]
    simp

theorem store_declared_eq_elided (v : Int) :
    (⟨f, policy, widths.declared? f.name⟩ : Slot).store v =
      (⟨f, if l.skips widths f.name then .truncate else policy, none⟩ : Slot).store v := by
  have hchecked := checked_declared hf widths policy
  cases hskips : l.skips widths f.name with
  | true =>
    rw [hskips] at hchecked
    rw [Slot.store_of_not_checked hchecked, if_pos rfl, Slot.store_truncate rfl]
  | false =>
    rw [hskips] at hchecked
    rw [← Slot.store_undeclared (Or.inl hchecked)]
    rfl

theorem store_declared_eq_lowered (value : Letter → Int) :
    (⟨f, policy, widths.declared? f.name⟩ : Slot).store (value f.name) =
      (⟨f, policy, none⟩ : Slot).store (l.lowered widths value f.name) := by
  have hchecked := checked_declared hf widths policy
  unfold lowered
  cases hskips : l.skips widths f.name with
  | true =>
    rw [hskips] at hchecked
    rw [Slot.store_of_not_checked hchecked, if_pos rfl, ← width_eq_count hf]
    exact (Slot.store_low ⟨f, policy, none⟩ (value f.name)).symm
  | false =>
    rw [hskips] at hchecked
    rw [← Slot.store_undeclared (Or.inl hchecked)]
    rfl

/-- Values as wide as declared are as good as their low bits. -/
theorem lowered_of_asDeclared {widths : Value} {value : Letter → Int}
    (h : l.AsDeclared widths value) : l.lowered widths value f.name = value f.name := by
  unfold lowered
  split
  · rename_i hskips
    obtain ⟨d, hd, hle⟩ : ∃ d, widths.declared? f.name = some d ∧
        d.toInt ≤ (l.template.cells.count (.field f.name) : Int) := by
      simpa [skips, Option.any_eq_true_iff_get, Option.eq_some_iff_get_eq] using hskips
    obtain ⟨h0, hlt⟩ := h f.name (List.mem_map_of_mem hf) d hd
    have hpow : (2 : Int) ^ d.toInt.toNat ≤ 2 ^ l.template.cells.count (.field f.name) :=
      pow_le_pow_right₀ (by omega) (by omega)
    exact Int.emod_eq_of_lt h0 (by omega)
  · rfl

end Field

/-- Values are settled as they are stored, slot by slot. -/
theorem settle_eq_stored (l : Layout) (kept : Int) (slots : List Slot) (value : Letter → Int) :
    l.settle kept slots value =
      (slots.mapM fun s : Slot => s.store (value s.name)).map fun pieces => .value (.int
        (Bits.land (Bits.lor kept (pieces.foldl Bits.lor (l.template.literalValue : Int)))
          (Bits.ones l.width))) := by
  have hstands : Stands (slots.map fun s => Value.int (value s.name))
      (slots.map fun s => value s.name) := by
    rw [Stands, List.forall₂_map_left_iff, List.forall₂_map_right_iff, List.forall₂_same]
    exact fun s _ => rfl
  have hzip : slots.zip (slots.map fun s => Value.int (value s.name)) =
      slots.map fun s => (s, Value.int (value s.name)) := by
    rw [← List.zip_map', List.map_id']
  have hstored := mapM_storeValue slots hstands.gives
  rw [hzip, List.mapM_map] at hstored
  have hsame : (slots.mapM fun s : Slot => s.store (value s.name)) =
      (passAll slots (slots.map fun s => value s.name)).map fun us =>
        List.zipWith Slot.place slots us := hstored
  rw [hsame, map_map]
  rfl

/-- Slots that store their values alike settle them alike. -/
theorem settle_congr (l : Layout) (kept : Int) {fields : List Field} {slot slot' : Field → Slot}
    {value value' : Letter → Int}
    (h : ∀ f ∈ fields,
      (slot f).store (value (slot f).name) = (slot' f).store (value' (slot' f).name)) :
    l.settle kept (fields.map slot) value = l.settle kept (fields.map slot') value' := by
  rw [settle_eq_stored, settle_eq_stored, List.mapM_map, List.mapM_map]
  exact congrArg (Except.map _) (mapM_congr h)

theorem settle_eq_combine {l : Layout} {slots : List Slot}
    (hfields : slots.map Slot.field = l.fields) {values : List Value} {value : Letter → Int}
    (hvalues : Stands values (l.names.map value)) :
    l.settle 0 slots value = (l.combine slots values).map fun n => .value (.int n) := by
  rw [l.combine_eq _ hvalues.gives, map_map, map_value_of_slots hfields]
  rfl

theorem settle_eq_replace {l : Layout} {slots : List Slot}
    (hfields : slots.map Slot.field = l.fields) {target : Value} {t : Int}
    (htarget : target.toInt? = some t) {values : List Value} {value : Letter → Int}
    (hvalues : Stands values (l.names.map value)) :
    l.settle (l.keptOf t) slots value =
      (l.replace slots target values).map fun n => .value (.int n) := by
  rw [l.replace_eq _ (index?_of_toInt? htarget) hvalues.gives, map_map, map_value_of_slots hfields]
  rfl

theorem fields_elided (l : Layout) (widths : Value) (policy : Overflow) :
    (l.elided widths policy).map Slot.field = l.fields := by
  rw [elided, List.map_map]
  exact List.map_id l.fields

section Slots

variable {l : Layout} {overflow widths : Value} {slots : List Slot} {policy : Overflow}
  (hpolicy : Overflow.ofValue overflow = .ok policy)
  (hslots : l.makeSlots overflow widths = .ok slots) (kept : Int) (value : Letter → Int)

include hpolicy hslots

theorem settle_eq_elided :
    l.settle kept slots value = l.settle kept (l.elided widths policy) value := by
  rw [makeSlots_eq_declared hpolicy hslots]
  apply settle_congr
  intro f hf
  exact store_declared_eq_elided hf widths policy _

theorem settle_eq_lowered :
    l.settle kept slots value =
      l.settle kept (slots.map Slot.undeclared) (l.lowered widths value) := by
  rw [makeSlots_eq_declared hpolicy hslots, List.map_map]
  apply settle_congr
  intro f hf
  exact store_declared_eq_lowered hf widths policy value

theorem settle_of_asDeclared (h : l.AsDeclared widths value) :
    l.settle kept slots value = l.settle kept (slots.map Slot.undeclared) value := by
  rw [settle_eq_lowered hpolicy hslots, makeSlots_eq_declared hpolicy hslots, List.map_map]
  apply settle_congr
  intro f hf
  exact congrArg (Slot.store _) (lowered_of_asDeclared hf h)

end Slots

/-- Integers stand for themselves, and are bound as they are given. -/
theorem bind_integers (l : Layout) (value : Letter → Int) :
    l.bind (l.names.map fun a => .int (value a)) [] none =
      .ok (l.names.map fun a => .int (value a)) ∧
    Stands (l.names.map fun a => .int (value a)) (l.names.map value) := by
  refine ⟨l.bind_positional _ none (List.length_map _), ?_⟩
  rw [Stands, List.forall₂_map_left_iff, List.forall₂_map_right_iff, List.forall₂_same]
  exact fun a _ => rfl

end Layout

/-- Operations with declared widths answer as without them if values are as wide as declared. For
all other values they answer as without them for the low bits of the letters that are declared to
fit, which is the same as cutting off the values of these letters under the policy of the rest. -/
theorem declared_widths_only_elide :
    (∀ s fallback c, Combination.make s fallback = .ok c →
      ∃ c', Combination.make { s with widths := .none } fallback = .ok c' ∧
        ∀ values keywords bound value, c.layout.bind values keywords none = .ok bound →
          Stands bound (c.layout.names.map value) →
          (c.layout.AsDeclared s.widths value → c.call values keywords = c'.call values keywords) ∧
          c.call values keywords =
            c'.call (c.layout.names.map fun a => .int (c.layout.lowered s.widths value a)) [] ∧
          ∀ policy, Overflow.ofValue s.overflow = .ok policy → c.call values keywords =
            (c.layout.combine (c.layout.elided s.widths policy) bound).map fun n =>
              .value (.int n)) ∧
    ∀ s fallback r, Replacement.make s fallback = .ok r →
      ∃ r', Replacement.make { s with widths := .none } fallback = .ok r' ∧
        ∀ target t values keywords bound value, target.toInt? = some t →
          r.layout.bind values keywords none = .ok bound →
          Stands bound (r.layout.names.map value) →
          (r.layout.AsDeclared s.widths value →
            r.call target values keywords = r'.call target values keywords) ∧
          r.call target values keywords = r'.call target
            (r.layout.names.map fun a => .int (r.layout.lowered s.widths value a)) [] ∧
          ∀ policy, Overflow.ofValue s.overflow = .ok policy → r.call target values keywords =
            (r.layout.replace (r.layout.elided s.widths policy) target bound).map fun n =>
              .value (.int n) := by
  constructor
  · intro s fallback c h
    obtain ⟨_, _, _, _, _, _, hslots, _⟩ := (Combination.make_eq_ok_iff s fallback c).mp h
    obtain ⟨policy, hpolicy, _⟩ := Layout.makeSlots_eq_ok hslots
    obtain ⟨c', hc', hlayout, hslots'⟩ :=
      Combination.exists_make_slots h (Layout.makeSlots_undeclared hslots)
    refine ⟨c', hc', ?_⟩
    intro values keywords bound value hbind hvalues
    obtain ⟨hbind', hvalues'⟩ := c.layout.bind_integers (c.layout.lowered s.widths value)
    rw [Combination.call_eq_settle h hbind hvalues,
      Combination.call_eq_settle hc' (hlayout ▸ hbind) (hlayout ▸ hvalues),
      Combination.call_eq_settle hc' (hlayout ▸ hbind') (hlayout ▸ hvalues'), hlayout, hslots']
    refine ⟨Layout.settle_of_asDeclared hpolicy hslots 0 value,
      Layout.settle_eq_lowered hpolicy hslots 0 value, ?_⟩
    intro policy' hpolicy'
    rw [Layout.settle_eq_elided hpolicy' hslots,
      Layout.settle_eq_combine (c.layout.fields_elided _ _) hvalues]
  · intro s fallback r h
    obtain ⟨_, _, _, _, _, hslots, _⟩ := (Replacement.make_eq_ok_iff s fallback r).mp h
    obtain ⟨policy, hpolicy, _⟩ := Layout.makeSlots_eq_ok hslots
    obtain ⟨r', hr', hlayout, hslots'⟩ :=
      Replacement.exists_make_slots h (Layout.makeSlots_undeclared hslots)
    refine ⟨r', hr', ?_⟩
    intro target t values keywords bound value htarget hbind hvalues
    obtain ⟨hbind', hvalues'⟩ := r.layout.bind_integers (r.layout.lowered s.widths value)
    rw [Replacement.call_eq_settle h htarget hbind hvalues,
      Replacement.call_eq_settle hr' htarget (hlayout ▸ hbind) (hlayout ▸ hvalues),
      Replacement.call_eq_settle hr' htarget (hlayout ▸ hbind') (hlayout ▸ hvalues'), hlayout,
      hslots']
    refine ⟨Layout.settle_of_asDeclared hpolicy hslots _ value,
      Layout.settle_eq_lowered hpolicy hslots _ value, ?_⟩
    intro policy' hpolicy'
    rw [Layout.settle_eq_elided hpolicy' hslots,
      Layout.settle_eq_replace (r.layout.fields_elided _ _) htarget hvalues]

/-- Values as wide as declared saturate where they are wider than their cells. A negative value that
is declared to fit does not spill, and the value beside it does. -/
theorem declared_widths_only_elide_mixed :
    (∃ c c', Combination.make ⟨.text "aabbbccc", .base .binary, .text "saturate",
          .dict [(.text "c", .int 9), (.text "a", .int 2)], .none⟩ none = .ok c ∧
      Combination.make ⟨.text "aabbbccc", .base .binary, .text "saturate", .none, .none⟩ none =
        .ok c' ∧
      c.call [.int 1, .int 2, .int 300] [] = c'.call [.int 1, .int 2, .int 300] [] ∧
      c.call [.int 1, .int 2, .int 300] [] = .ok (.value (.int 87))) ∧
    ∃ r r', Replacement.make ⟨.text "...aa.bb", .base .binary, .text "corrupt",
          .dict [(.text "a", .int 1)], .text "interpreted"⟩ none = .ok r ∧
      Replacement.make ⟨.text "...aa.bb", .base .binary, .text "corrupt", .none,
          .text "interpreted"⟩ none = .ok r' ∧
      r.call (.int 64) [.int (-3), .int 5] [] = r'.call (.int 64) [.int 1, .int 5] [] ∧
      r.call (.int 64) [.int (-3), .int 5] [] = .ok (.value (.int 77)) := by
  constructor
  · obtain ⟨value, hvalue⟩ : ∃ value : Letter → Int, value = fun a =>
        if a.char = 'a' then 1 else if a.char = 'b' then 2 else 300 := ⟨_, rfl⟩
    have heval : (Combination.make ⟨.text "aabbbccc", .base .binary, .text "saturate",
        .dict [(.text "c", .int 9), (.text "a", .int 2)], .none⟩ none).map (fun c =>
          (c.layout.names.map value, c.layout.bind [.int 1, .int 2, .int 300] [] none,
            c.layout.names.all fun a => ((Value.dict [(.text "c", .int 9),
              (.text "a", .int 2)]).declared? a).all fun d =>
                decide (0 ≤ value a) && decide (value a < 2 ^ d.toInt.toNat))) =
        .ok ([1, 2, 300], .ok [.int 1, .int 2, .int 300], true) := by
      subst hvalue
      rfl
    rw [map_eq_ok_iff] at heval
    obtain ⟨c, hc, hfacts⟩ := heval
    simp only [Prod.mk.injEq] at hfacts
    obtain ⟨hvalues, hbind, hdeclared⟩ := hfacts
    have hstands : Stands [.int 1, .int 2, .int 300] (c.layout.names.map value) := by
      rw [hvalues]
      exact .cons rfl (.cons rfl (.cons rfl .nil))
    have hcall : c.call [.int 1, .int 2, .int 300] [] = .ok (.value (.int 87)) := by
      rw [Combination.call_of_make hc hbind hstands, hvalues]
      exact eq_of_map_eq_ok hc (fun c => (passAll c.slots [1, 2, 300]).map fun us =>
        Program.single (c.layout.assemble 0 c.slots us)) (by rfl)
    obtain ⟨c', hc', hsame⟩ := declared_widths_only_elide.1 _ none c hc
    refine ⟨c, c', hc, hc', (hsame _ [] _ value hbind hstands).1 ?_, hcall⟩
    intro a ha d hd
    have hfit := List.all_eq_true.mp hdeclared a ha
    simpa [hd] using hfit
  · obtain ⟨value, hvalue⟩ : ∃ value : Letter → Int, value = fun a =>
        if a.char = 'a' then -3 else 5 := ⟨_, rfl⟩
    have heval : (Replacement.make ⟨.text "...aa.bb", .base .binary, .text "corrupt",
        .dict [(.text "a", .int 1)], .text "interpreted"⟩ none).map (fun r =>
          (r.layout.names.map value, r.layout.bind [.int (-3), .int 5] [] none,
            r.layout.names.map fun a => Value.int (r.layout.lowered
              (.dict [(.text "a", .int 1)]) value a),
            r.call (.int 64) [.int (-3), .int 5] [])) =
        .ok ([-3, 5], .ok [.int (-3), .int 5], [.int 1, .int 5], .ok (.value (.int 77))) := by
      subst hvalue
      rfl
    rw [map_eq_ok_iff] at heval
    obtain ⟨r, hr, hfacts⟩ := heval
    simp only [Prod.mk.injEq] at hfacts
    obtain ⟨hvalues, hbind, hlowered, hcall⟩ := hfacts
    have hstands : Stands [.int (-3), .int 5] (r.layout.names.map value) := by
      rw [hvalues]
      exact .cons rfl (.cons rfl .nil)
    obtain ⟨r', hr', hsame⟩ := declared_widths_only_elide.2 _ none r hr
    have hlow := (hsame (.int 64) 64 _ [] _ value rfl hbind hstands).2.1
    rw [hlowered] at hlow
    exact ⟨r, r', hr, hr', hlow, hcall⟩

end BitTemplate
