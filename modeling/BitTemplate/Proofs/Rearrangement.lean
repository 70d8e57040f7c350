import BitTemplate.Proofs.RoundTrip

/-!
Transfers between templates whose cells are the same letters in another order. Such a transfer
carries the value of every letter over in full, whatever its policy, since a letter has as many
cells in the one template as in the other. What the cells of a template show is one integer only,
so that two transfers in a row do what a single one does, and one that leads back undoes the other.
-/
namespace BitTemplate

open Failure

/-- The letters have the values that the fields of an integer have. -/
def Layout.Splits (l : Layout) (n : Int) (value : Letter → Int) : Prop :=
  ∀ f ∈ l.fields, value f.name = f.extract n

/-- The fields of an integer fit any template with the same letters. -/
theorem Layout.Splits.fits {source target : Template} (hperm : target.cells.Perm source.cells)
    {n : Int} {value : Letter → Int} (h : (⟨source⟩ : Layout).Splits n value) :
    (⟨target⟩ : Layout).Fits value := by
  intro f hf
  obtain ⟨a, ha, rfl⟩ := (mem_fields_iff _ f).mp hf
  have ha' : a ∈ source.names := by
    rw [Template.mem_names] at ha ⊢
    exact hperm.mem_iff.mp ha
  have hfield := h (source.field a ha') ((mem_fields_iff _ _).mpr ⟨a, ha', rfl⟩)
  have hbounds := (source.field a ha').extract_bounds n
  rw [← hfield, Template.width_field, ← hperm.count_eq] at hbounds
  rw [Template.width_field]
  exact hbounds

/-- What is written into all fields can be read from them again. -/
theorem Layout.Fits.splits {l : Layout} {value : Letter → Int} (h : l.Fits value) {kept m : Int}
    (hshows : Shows l.template.cells kept value m) : l.Splits m value := by
  intro f hf
  obtain ⟨h0, hlt⟩ := h f hf
  rw [Layout.extract_of_shows hshows hf, Int.emod_eq_of_lt h0 hlt]

namespace Transfer

/-- All fields are added if no letter occurs twice. -/
theorem addFields_of_nodup (l : Layout) (index : Nat) {sources : List Program.Source}
    {fields : List Field} (hnodup : (fields.map Field.name).Nodup)
    (hnew : ∀ f ∈ fields, source? sources f.name = none) :
    addFields l index sources fields = .ok (sources ++ fields.map fun f => ⟨index, f⟩) := by
  induction fields generalizing sources with
  | nil => simp [addFields]
  | cons f rest ih =>
    rw [List.map_cons, List.nodup_cons] at hnodup
    have hlater : ∀ g ∈ rest, source? (sources ++ [⟨index, f⟩]) g.name = none := by
      intro g hg
      have hne : f.name ≠ g.name := by
        intro heq
        rw [heq] at hnodup
        exact hnodup.1 (List.mem_map_of_mem hg)
      have hold := hnew g (List.mem_cons_of_mem _ hg)
      unfold source? at hold ⊢
      rw [List.find?_append, hold]
      simp [hne]
    rw [addFields, hnew f (List.mem_cons_self ..)]
    simp only
    rw [ih hnodup.2 hlater, List.append_assoc]
    rfl

theorem gather_single (l : Layout) :
    gather 0 [] [l] = .ok (l.fields.map fun f => ⟨0, f⟩) := by
  have hfields : addFields l 0 [] l.fields = .ok ([] ++ l.fields.map fun f => ⟨0, f⟩) :=
    addFields_of_nodup l 0 l.nodup_names fun _ _ => rfl
  rw [gather, hfields]
  rfl

/-- A letter of a single input has a source. -/
theorem exists_source {l : Layout} {a : Letter} (ha : a ∈ l.names) :
    ∃ source, source? (l.fields.map fun f => ⟨0, f⟩) a = some source := by
  obtain ⟨f, hf, rfl⟩ := List.mem_map.mp ha
  rw [← Option.isSome_iff_exists, source?, List.find?_isSome]
  exact ⟨⟨0, f⟩, List.mem_map_of_mem hf, by simp⟩

theorem link_of_source (output : Layout) {sources : List Program.Source} (policy : Overflow)
    {f : Field} {source : Program.Source} (h : source? sources f.name = some source) :
    link output sources policy f =
      .ok (⟨f, policy, some (.int source.field.width)⟩, source) := by
  rw [link, h]

/-- A transfer from one template to another, under any settings. -/
def Between (base input output : Value) (t : Transfer) : Prop :=
  ∃ overflow engine fallback, make ⟨.list [input], output, base, overflow, engine⟩ fallback = .ok t

section

variable {base input output : Value} {source target : Template}
  (hinput : Template.ofValue input base = .ok source)
  (houtput : Template.ofValue output base = .ok target)
  (hletters : ∀ cell ∈ source.cells, ∃ a, cell = .field a)
  (hperm : target.cells.Perm source.cells)

include hinput hletters in
theorem readInput_of_letters : readInput base input = .ok ⟨source⟩ := by
  have hliterals : ∀ cell ∈ source.cells, cell.isLiteral = false := by
    intro cell hcell
    obtain ⟨a, rfl⟩ := hletters cell hcell
    rfl
  rw [readInput, hinput, ok_bind, Template.forbidLiterals,
    (source.forbid_eq_ok_iff _ _).mpr hliterals]
  rfl

include hinput houtput hletters

include hperm in
/-- A transfer can be made between templates with the same letters, under all known settings. -/
theorem exists_between {overflow setting : Value} {fallback : Option String} {engine : Engine}
    {policy : Overflow} (hengine : Engine.select setting fallback = .ok engine)
    (hpolicy : Overflow.ofValue overflow = .ok policy) :
    ∃ t, make ⟨.list [input], output, base, overflow, setting⟩ fallback = .ok t := by
  have hplaceholders : ∀ cell ∈ target.cells, cell.isPlaceholder = false := by
    intro cell hcell
    obtain ⟨a, rfl⟩ := hletters cell (hperm.mem_iff.mp hcell)
    rfl
  obtain ⟨slots, hslots⟩ : ∃ slots, (⟨target⟩ : Layout).fields.mapM (link ⟨target⟩
      ((⟨source⟩ : Layout).fields.map fun f => ⟨0, f⟩) policy) = .ok slots := by
    apply exists_mapM
    intro f hf
    obtain ⟨a, ha, rfl⟩ := (Layout.mem_fields_iff _ f).mp hf
    have hname : a ∈ (⟨source⟩ : Layout).names := by
      rw [Layout.names_eq, Template.mem_names, ← hperm.mem_iff, ← Template.mem_names]
      exact ha
    obtain ⟨known, hknown⟩ := exists_source hname
    exact ⟨_, link_of_source _ policy hknown⟩
  have hinputs : [input].mapM (readInput base) = .ok [⟨source⟩] := by
    rw [mapM_cons, readInput_of_letters hinput hletters]
    rfl
  obtain ⟨t, ht, _⟩ := exists_make (s := ⟨.list [input], output, base, overflow, setting⟩)
    hengine rfl hinputs (by simp) houtput hplaceholders (gather_single _) hpolicy hslots
  exact ⟨t, ht⟩

/-- What is known of a transfer between two templates: every slot takes the field of its own
letter. -/
theorem parts_of_between {t : Transfer} (h : Between base input output t) :
    t.inputs = [⟨source⟩] ∧ t.output = ⟨target⟩ ∧
      (t.slots.map Prod.fst).map Slot.field = t.output.fields ∧
      ∀ pair ∈ t.slots, pair.2.index = 0 ∧ pair.2.field.name = pair.1.name ∧
        pair.2.field ∈ (⟨source⟩ : Layout).fields := by
  obtain ⟨overflow, setting, fallback, ht⟩ := h
  obtain ⟨_, values, template, sources, policy, _, hvalues, hinputs, _, htemplate, _, hlayout,
    hsources, _, hslots, _⟩ := (make_eq_ok_iff _ _ t).mp ht
  have hone : t.inputs = [⟨source⟩] := by
    cases hvalues
    rw [mapM_cons, readInput_of_letters hinput hletters] at hinputs
    exact (Except.ok.inj hinputs).symm
  obtain ⟨hfields, hlinked⟩ := mapM_link_eq_ok hslots
  refine ⟨hone, ?_, ?_, ?_⟩
  · rw [houtput] at htemplate
    rw [hlayout, Except.ok.inj htemplate]
  · rw [List.map_map, ← hfields]
    rfl
  · intro pair hpair
    obtain ⟨hname, l, hl, hfield⟩ := field_of_source hsources (hlinked pair hpair).1
    rw [hone] at hl
    have hindex : pair.2.index = 0 := by
      have hlt := (List.getElem?_eq_some_iff.mp hl).1
      rw [List.length_singleton] at hlt
      omega
    rw [hindex] at hl
    cases hl
    exact ⟨hindex, hname, hfield⟩

include hperm in
/-- The values of all letters are carried over in full. -/
theorem run_of_between {t : Transfer} (h : Between base input output t) {n : Int}
    {value : Letter → Int} (hvalue : (⟨source⟩ : Layout).Splits n value) :
    ∃ m, t.run [.int n] = .ok (.value (.int m)) ∧ Shows target.cells 0 value m ∧
      (⟨target⟩ : Layout).Splits m value := by
  obtain ⟨hone, htarget, hfields, hslots⟩ := parts_of_between hinput houtput hletters h
  have hfits : t.output.Fits value := by
    rw [htarget]
    exact hvalue.fits hperm
  -- Every slot takes the field of its own letter, so the values arrive in the order of the output.
  have hcarried : Program.transferred t.slots [n] = t.output.names.map value := by
    rw [← Layout.names_of_slots hfields, Program.transferred, List.map_map, List.map_map]
    apply List.map_congr_left
    intro pair hpair
    obtain ⟨hindex, hname, hfield⟩ := hslots pair hpair
    rw [hindex]
    change pair.2.field.extract n = value pair.1.name
    rw [← hname, hvalue pair.2.field hfield]
  have hrun : t.run [.int n] = .ok (.value (.int (t.output.assemble 0 (t.slots.map Prod.fst)
      ((t.slots.map Prod.fst).map fun s => value s.name)))) := by
    obtain ⟨_, _, _, ht⟩ := h
    have hstands : Stands [.int n] [n] := List.Forall₂.cons rfl List.Forall₂.nil
    rw [run_of_make ht (by rw [hone]; rfl) hstands, hcarried, hfits.passAll hfields]
    rfl
  have hshows := Layout.shows_assemble hfields 0 value (hfits.place hfields)
  rw [Layout.keptOf_zero] at hshows
  have hsplits := hfits.splits hshows
  rw [htarget] at hrun hshows hsplits
  exact ⟨_, hrun, hshows, hsplits⟩

end

end Transfer

/-- Templates of letters only show an integer by its fields. -/
theorem Layout.eq_emod_of_shows {l : Layout}
    (hletters : ∀ cell ∈ l.template.cells, ∃ a, cell = .field a) {n m : Int}
    {value : Letter → Int} (hvalue : l.Splits n value) (h : Shows l.template.cells 0 value m) :
    m = n % 2 ^ l.width := by
  have hliterals : ∀ cell ∈ l.template.cells, cell.isLiteral = false := by
    intro cell hcell
    obtain ⟨a, rfl⟩ := hletters cell hcell
    rfl
  refine h.unique (shows_extracted hliterals n hvalue) ?_
  intro p cell hcell
  obtain ⟨a, rfl⟩ := hletters cell (List.mem_of_getElem? hcell)
  rfl

open Transfer in
/-- Transfers between templates with the same letters in any order compose as the orders do. They
can be made under all known settings, two in a row give what one gives, and one that leads back to
the first template gives the integer modulo two to the width. -/
theorem transfers_compose {base v₁ v₂ v₃ : Value} {t₁ t₂ t₃ : Template}
    (h₁ : Template.ofValue v₁ base = .ok t₁) (h₂ : Template.ofValue v₂ base = .ok t₂)
    (h₃ : Template.ofValue v₃ base = .ok t₃)
    (hletters : ∀ cell ∈ t₁.cells, ∃ a, cell = .field a)
    (hperm₂ : t₂.cells.Perm t₁.cells) (hperm₃ : t₃.cells.Perm t₁.cells) :
    (∀ v ∈ [v₁, v₂, v₃], ∀ w ∈ [v₁, v₂, v₃], ∀ overflow setting fallback policy engine,
      Overflow.ofValue overflow = .ok policy → Engine.select setting fallback = .ok engine →
        ∃ x, make ⟨.list [v], w, base, overflow, setting⟩ fallback = .ok x) ∧
      (∀ x y z, Between base v₁ v₂ x → Between base v₂ v₃ y → Between base v₁ v₃ z →
        ∀ n, ∃ m k, x.run [.int n] = .ok (.value (.int m)) ∧
          y.run [.int m] = .ok (.value (.int k)) ∧ z.run [.int n] = .ok (.value (.int k))) ∧
      (∀ x, Between base v₁ v₁ x →
        ∀ n, x.run [.int n] = .ok (.value (.int (n % 2 ^ t₁.width)))) ∧
      ∀ x y, Between base v₁ v₂ x → Between base v₂ v₁ y →
        ∀ n, ∃ m, x.run [.int n] = .ok (.value (.int m)) ∧
          y.run [.int m] = .ok (.value (.int (n % 2 ^ t₁.width))) := by
  have hread : ∀ v ∈ [v₁, v₂, v₃], ∃ t, Template.ofValue v base = .ok t ∧
      t.cells.Perm t₁.cells := by
    simp only [List.forall_mem_cons, List.not_mem_nil, false_implies, implies_true, and_true]
    exact ⟨⟨t₁, h₁, .refl _⟩, ⟨t₂, h₂, hperm₂⟩, t₃, h₃, hperm₃⟩
  have hletters₂ : ∀ cell ∈ t₂.cells, ∃ a, cell = .field a :=
    fun cell hcell => hletters cell (hperm₂.mem_iff.mp hcell)
  refine ⟨?_, ?_, ?_, ?_⟩
  · intro v hv w hw overflow setting fallback policy engine hpolicy hengine
    obtain ⟨source, hsource, hfrom⟩ := hread v hv
    obtain ⟨target, htarget, hto⟩ := hread w hw
    exact exists_between hsource htarget (fun cell hcell => hletters cell (hfrom.mem_iff.mp hcell))
      (hto.trans hfrom.symm) hengine hpolicy
  · intro x y z hx hy hz n
    obtain ⟨value, hvalue, _⟩ := (⟨t₁⟩ : Layout).exists_values n
    obtain ⟨m, hxm, _, hvalue₂⟩ := run_of_between h₁ h₂ hletters hperm₂ hx hvalue
    obtain ⟨k, hyk, hshows, _⟩ :=
      run_of_between h₂ h₃ hletters₂ (hperm₃.trans hperm₂.symm) hy hvalue₂
    -- Both ways end in the template that shows the same values.
    obtain ⟨k', hzk, hshows', _⟩ := run_of_between h₁ h₃ hletters hperm₃ hz hvalue
    have hk : k = k' := hshows.unique hshows' fun _ _ _ => rfl
    exact ⟨m, k, hxm, hyk, hk ▸ hzk⟩
  · intro x hx n
    obtain ⟨value, hvalue, _⟩ := (⟨t₁⟩ : Layout).exists_values n
    obtain ⟨m, hxm, hshows, _⟩ := run_of_between h₁ h₁ hletters (.refl _) hx hvalue
    rw [hxm, Layout.eq_emod_of_shows (l := ⟨t₁⟩) hletters hvalue hshows]
    rfl
  · intro x y hx hy n
    obtain ⟨value, hvalue, _⟩ := (⟨t₁⟩ : Layout).exists_values n
    obtain ⟨m, hxm, _, hvalue₂⟩ := run_of_between h₁ h₂ hletters hperm₂ hx hvalue
    obtain ⟨k, hyk, hshows, _⟩ := run_of_between h₂ h₁ hletters₂ hperm₂.symm hy hvalue₂
    rw [Layout.eq_emod_of_shows (l := ⟨t₁⟩) hletters hvalue hshows] at hyk
    exact ⟨m, hxm, hyk⟩

/-- Three letters in three orders, and a negative integer. -/
theorem transfers_compose_interleaved :
    ∃ x y z, Transfer.make ⟨.list [.text "abcabcab"], .text "aaabbbcc", .base .binary,
        .text "panic", .none⟩ none = .ok x ∧
      Transfer.make ⟨.list [.text "aaabbbcc"], .text "cbacbaba", .base .binary,
        .text "saturate", .text "interpreted"⟩ none = .ok y ∧
      Transfer.make ⟨.list [.text "abcabcab"], .text "cbacbaba", .base .binary,
        .text "corrupt", .none⟩ none = .ok z ∧
      ∃ m k, x.run [.int (-5)] = .ok (.value (.int m)) ∧
        y.run [.int m] = .ok (.value (.int k)) ∧ z.run [.int (-5)] = .ok (.value (.int k)) := by
  obtain ⟨a, b, c, h₁, h₂, h₃⟩ : ∃ a b c : Letter,
      (Template.ofValue (.text "abcabcab") (.base .binary)).map Template.cells =
        .ok ([a, b, c, a, b, c, a, b].map .field) ∧
      (Template.ofValue (.text "aaabbbcc") (.base .binary)).map Template.cells =
        .ok ([a, a, a, b, b, b, c, c].map .field) ∧
      (Template.ofValue (.text "cbacbaba") (.base .binary)).map Template.cells =
        .ok ([c, b, a, c, b, a, b, a].map .field) :=
    ⟨⟨'a', by decide⟩, ⟨'b', by decide⟩, ⟨'c', by decide⟩, by rfl, by rfl, by rfl⟩
  rw [map_eq_ok_iff] at h₁ h₂ h₃
  obtain ⟨t₁, h₁, hcells₁⟩ := h₁
  obtain ⟨t₂, h₂, hcells₂⟩ := h₂
  obtain ⟨t₃, h₃, hcells₃⟩ := h₃
  have hletters : ∀ cell ∈ t₁.cells, ∃ a, cell = .field a := by simp [hcells₁]
  have hperm₂ : t₂.cells.Perm t₁.cells := by
    rw [hcells₁, hcells₂]
    apply List.Perm.map
    simp only [List.perm_iff_count, List.count_cons, List.count_nil]
    omega
  have hperm₃ : t₃.cells.Perm t₁.cells := by
    rw [hcells₁, hcells₃]
    apply List.Perm.map
    simp only [List.perm_iff_count, List.count_cons, List.count_nil]
    omega
  obtain ⟨hmake, hcompose, _, _⟩ := transfers_compose h₁ h₂ h₃ hletters hperm₂ hperm₃
  obtain ⟨x, hx⟩ := hmake (.text "abcabcab") (by simp) (.text "aaabbbcc") (by simp)
    (.text "panic") .none none .panic .compiled rfl rfl
  obtain ⟨y, hy⟩ := hmake (.text "aaabbbcc") (by simp) (.text "cbacbaba") (by simp)
    (.text "saturate") (.text "interpreted") none .saturate .interpreted rfl rfl
  obtain ⟨z, hz⟩ := hmake (.text "abcabcab") (by simp) (.text "cbacbaba") (by simp)
    (.text "corrupt") .none none .corrupt .compiled rfl rfl
  exact ⟨x, y, z, hx, hy, hz,
    hcompose x y z ⟨_, _, _, hx⟩ ⟨_, _, _, hy⟩ ⟨_, _, _, hz⟩ (-5)⟩

end BitTemplate
