import BitTemplate.Proofs.Placement
import BitTemplate.Proofs.Reading

/-!
Splitting an integer into its fields and combining the fields again. Values that fit their fields
pass every policy unchanged and never spill, so the bit that a field moves out of the template is
the bit that it moves in. What the cells of a template show is one integer only. If all cells are
letters, it is made of its fields alone, and the two operations undo each other.
-/
namespace BitTemplate

open Failure

namespace Field

/-- A moved bit of the template shows in the extracted value. -/
theorem bit_extract_of_moves {f : Field} {b i : Nat} (h : f.Moves b i) (v : Int) :
    Bits.bit (f.extract v) i = Bits.bit v b := by
  rw [Bool.eq_iff_iff, bit_extract_iff]
  constructor
  · intro hbit
    obtain ⟨c, hc, hvalue⟩ := hbit
    rwa [h.template_unique hc]
  · intro hbit
    exact ⟨b, h, hbit⟩

theorem spill_eq_zero (f : Field) {v : Int} (h0 : 0 ≤ v) (hv : v < 2 ^ f.width) :
    f.spill v = 0 := by
  apply Bits.eq_of_bit_eq
  intro b
  have hbit : Bits.bit v (f.width + (b - f.spillOffset)) = false :=
    Bits.bit_eq_false_of_bounds h0 hv (by omega)
  rw [spill, Bits.bit_shiftLeft, Bits.bit_shiftRight, hbit, Bool.and_false, Bits.bit_zero]

end Field

namespace Slot

/-- A value that fits passes unchanged, whatever the policy. -/
theorem pass_of_fits (s : Slot) {v : Int} (hv : v < 2 ^ s.width) : s.pass v = .ok v := by
  have hle : v ≤ Bits.ones s.width := by
    rw [Bits.ones_eq]
    omega
  unfold pass
  split
  · cases s.overflow with
    | truncate => rfl
    | panic => exact if_neg (not_lt.mpr hle)
    | corrupt => rfl
    | saturate => exact congrArg Except.ok (min_eq_left hle)
  · rfl

/-- A value that fits is deposited and nothing else. -/
theorem place_of_fits (s : Slot) {v : Int} (h0 : 0 ≤ v) (hv : v < 2 ^ s.width) :
    s.place v = s.field.deposit v := by
  unfold place
  split
  · rw [s.field.spill_eq_zero h0 hv]
    apply Bits.eq_of_bit_eq
    intro b
    simp
  · rfl

end Slot

/-- The cells decide all bits, so that what they show is one integer only. -/
theorem Shows.unique {cells : List Cell} {t t' : Int} {value value' : Letter → Int} {r r' : Int}
    (h : Shows cells t value r) (h' : Shows cells t' value' r')
    (hsame : ∀ p cell, cells[p]? = some cell →
      cellBit cells t value p cell = cellBit cells t' value' p cell) : r = r' := by
  apply Bits.eq_of_bit_eq
  intro b
  by_cases hb : b < cells.length
  · have hp : cells.length - 1 - b < cells.length := by omega
    have hcell := List.getElem?_eq_getElem hp
    have hplace : cells.length - 1 - (cells.length - 1 - b) = b := by omega
    have hbit := h.bits _ _ hcell
    have hbit' := h'.bits _ _ hcell
    rw [hplace] at hbit hbit'
    rw [hbit, hbit', hsame _ _ hcell]
  · rw [Bits.bit_eq_false_of_bounds h.nonneg h.bounded (by omega),
      Bits.bit_eq_false_of_bounds h'.nonneg h'.bounded (by omega)]

namespace Layout

/-- A field gives back what its cells show. -/
theorem extract_of_shows {l : Layout} {t : Int} {value : Letter → Int} {r : Int}
    (h : Shows l.template.cells t value r) {f : Field} (hf : f ∈ l.fields) :
    f.extract r = value f.name % 2 ^ f.width := by
  apply Bits.eq_of_bit_eq
  intro i
  rw [Bits.bit_emod_two_pow]
  by_cases hi : i < f.width
  · obtain ⟨b, hmove⟩ := f.exists_moves hi
    have hb : b < l.width := by
      rw [← l.templateWidth_of_mem hf]
      exact hmove.bounds.1
    have hp : l.width - 1 - b + b + 1 = l.width := by omega
    obtain ⟨hcell, hrank⟩ := cell_of_moves hf hmove hp
    have hbit := h.bits _ _ hcell
    have hplace : l.template.cells.length - 1 - (l.width - 1 - b) = b := by
      rw [Template.length_cells]
      change l.width - 1 - (l.width - 1 - b) = b
      omega
    rw [hplace] at hbit
    rw [Field.bit_extract_of_moves hmove, hbit, cellBit, ← hrank]
    simp [hi]
  · have hbounds := f.extract_bounds r
    rw [Bits.bit_eq_false_of_bounds hbounds.1 hbounds.2 (by omega)]
    simp [hi]

/-- An integer shows itself and its fields, as far as the template reaches. -/
theorem shows_extracted {l : Layout} (hliterals : ∀ cell ∈ l.template.cells, cell.isLiteral = false)
    (n : Int) {value : Letter → Int} (hvalue : ∀ f ∈ l.fields, value f.name = f.extract n) :
    Shows l.template.cells n value (n % 2 ^ l.width) := by
  have hpos : (0 : Int) < 2 ^ l.width := by positivity
  refine ⟨Int.emod_nonneg n hpos.ne', ?_, ?_⟩
  · rw [Template.length_cells]
    exact Int.emod_lt_of_pos n hpos
  · intro p cell hcell
    have hp : p < l.width := by
      have hlt := (List.getElem?_eq_some_iff.mp hcell).1
      rwa [Template.length_cells] at hlt
    have hb : l.template.cells.length - 1 - p = l.width - 1 - p := by
      rw [Template.length_cells]
      rfl
    have hinside : l.width - 1 - p < l.width := by omega
    rw [Bits.bit_emod_two_pow, hb]
    cases cell with
    | literal digit =>
      have hfree := hliterals _ (List.mem_of_getElem? hcell)
      simp [Cell.isLiteral] at hfree
    | placeholder =>
      rw [cellBit, hb]
      simp [hinside]
    | field a =>
      obtain ⟨f, hf, hname, hmove⟩ := moves_of_cell hcell (b := l.width - 1 - p) (by omega)
      subst hname
      rw [cellBit, hvalue f hf, Field.bit_extract_of_moves hmove]
      simp [hinside]

end Layout

/-- The values of an outcome in their order, without letters. -/
def Outcome.items : Outcome → List Value
  | .value v => [v]
  | .tuple items => items
  | .record fields => fields.map Prod.snd

/-- Whether all letters of a layout have values that fit their fields. -/
def Layout.Fits (l : Layout) (value : Letter → Int) : Prop :=
  ∀ f ∈ l.fields, 0 ≤ value f.name ∧ value f.name < 2 ^ f.width

theorem Layout.Fits.place {l : Layout} {slots : List Slot} {value : Letter → Int}
    (h : l.Fits value) (hfields : slots.map Slot.field = l.fields) :
    ∀ s ∈ slots, s.place (value s.name) = s.field.deposit (value s.name) := by
  intro s hs
  obtain ⟨h0, hlt⟩ := h s.field (field_of_slot hfields hs)
  exact s.place_of_fits h0 hlt

theorem Layout.Fits.passAll {l : Layout} {slots : List Slot} {value : Letter → Int}
    (h : l.Fits value) (hfields : slots.map Slot.field = l.fields) :
    passAll slots (l.names.map value) = .ok (slots.map fun s => value s.name) := by
  rw [← names_of_slots hfields, List.map_map, passAll_map, mapM_eq_ok_iff,
    List.forall₂_map_right_iff, List.forall₂_same]
  intro s hs
  exact s.pass_of_fits (h s.field (field_of_slot hfields hs)).2

/-- A combination with a value for every letter lets the values pass and assembles them. -/
theorem Combination.call_positional {s : StorageSettings} {fallback : Option String}
    {c : Combination} (h : Combination.make s fallback = .ok c) {values : List Value}
    {value : Letter → Int} (hvalues : Stands values (c.layout.names.map value)) :
    c.call values [] = (passAll c.slots (c.layout.names.map value)).map fun us =>
      .value (.int (c.layout.assemble 0 c.slots us)) := by
  have hlength : values.length = c.layout.names.length := by
    rw [hvalues.length_eq, List.length_map]
  exact Combination.call_of_make h (c.layout.bind_positional values none hlength) hvalues

/-- Values that fit are combined into the integer that shows them. -/
theorem Combination.call_of_fits {s : StorageSettings} {fallback : Option String}
    {c : Combination} (h : Combination.make s fallback = .ok c) {values : List Value}
    {value : Letter → Int} (hfits : c.layout.Fits value)
    (hvalues : Stands values (c.layout.names.map value)) :
    ∃ r, c.call values [] = .ok (.value (.int r)) ∧ Shows c.layout.template.cells 0 value r := by
  obtain ⟨hfields, _⟩ := Combination.make_engines h
  have hshows := Layout.shows_assemble hfields 0 value (hfits.place hfields)
  rw [Layout.keptOf_zero] at hshows
  refine ⟨_, ?_, hshows⟩
  rw [Combination.call_positional h hvalues, hfits.passAll hfields, map_ok]

/-- An extraction returns as many items as there are letters, in a record or a tuple. -/
theorem Extraction.exists_run {s : Extraction.Settings} {fallback : Option String}
    {x : Extraction} (h : Extraction.make s fallback = .ok x) (n : Int) :
    ∃ o, x.run (.int n) = .ok o ∧ ∀ value : Letter → Int,
      (∀ f ∈ x.layout.fields, value f.name = f.extract n) →
        Stands o.items (x.layout.names.map value) := by
  obtain ⟨hrun, hstands⟩ := Extraction.run_of_make h n
  refine ⟨_, hrun, ?_⟩
  intro value hvalue
  have hitems : Outcome.items (if x.named then
      .record (x.layout.template.names.zip (x.interpret n)) else .tuple (x.interpret n)) =
      x.interpret n := by
    split
    · apply List.map_snd_zip
      rw [hstands.length_eq, List.length_map]
    · rfl
  have hnumbers : (x.layout.template.names.map fun a =>
      (readPositions x.layout.width (x.layout.template.positions a) n : Int)) =
      x.layout.names.map value := by
    rw [Layout.names, List.map_map,
      ← x.layout.map_fields (fun f => f.extract n) _ fun a ha => Field.extract_eq_read _ n]
    exact List.map_congr_left fun f hf => (hvalue f hf).symm
  rw [hitems, ← hnumbers]
  exact hstands

/-- The values that the fields have in an integer. -/
theorem Layout.exists_values (l : Layout) (n : Int) :
    ∃ value : Letter → Int, (∀ f ∈ l.fields, value f.name = f.extract n) ∧ l.Fits value := by
  have hvalue : ∀ f ∈ l.fields,
      (readPositions l.width (l.template.positions f.name) n : Int) = f.extract n := by
    intro f hf
    obtain ⟨a, ha, rfl⟩ := (l.mem_fields_iff f).mp hf
    exact ((l.template.field a ha).extract_eq_read n).symm
  refine ⟨fun a => readPositions l.width (l.template.positions a) n, hvalue, ?_⟩
  intro f hf
  simp only [hvalue f hf]
  exact f.extract_bounds n

section

variable {sx : Extraction.Settings} {sc : StorageSettings} {fallback : Option String}
  {x : Extraction} {c : Combination} (hx : Extraction.make sx fallback = .ok x)
  (hc : Combination.make sc fallback = .ok c) (hlayout : c.layout = x.layout)

include hx hc hlayout

theorem call_extracted (hletters : ∀ cell ∈ x.layout.template.cells, ∃ a, cell = .field a)
    (n : Int) :
    ∃ o, x.run (.int n) = .ok o ∧
      c.call o.items [] = .ok (.value (.int (n % 2 ^ x.layout.width))) := by
  obtain ⟨value, hvalue, hfits⟩ := c.layout.exists_values n
  obtain ⟨o, ho, hitems⟩ := Extraction.exists_run hx n
  rw [← hlayout] at hitems hletters ⊢
  obtain ⟨r, hr, hshows⟩ := Combination.call_of_fits hc hfits (hitems value hvalue)
  have hliterals : ∀ cell ∈ c.layout.template.cells, cell.isLiteral = false := by
    intro cell hcell
    obtain ⟨a, rfl⟩ := hletters cell hcell
    rfl
  have hback : r = n % 2 ^ c.layout.width := by
    refine hshows.unique (Layout.shows_extracted hliterals n hvalue) ?_
    intro p cell hcell
    obtain ⟨a, rfl⟩ := hletters cell (List.mem_of_getElem? hcell)
    rfl
  rw [hback] at hr
  exact ⟨o, ho, hr⟩

theorem run_combined {value : Letter → Int} (hfits : x.layout.Fits value) {values : List Value}
    (hvalues : Stands values (x.layout.names.map value)) :
    ∃ r o, c.call values [] = .ok (.value (.int r)) ∧ x.run (.int r) = .ok o ∧
      Stands o.items (x.layout.names.map value) := by
  rw [← hlayout] at hfits hvalues
  obtain ⟨r, hr, hshows⟩ := Combination.call_of_fits hc hfits hvalues
  obtain ⟨o, ho, hitems⟩ := Extraction.exists_run hx r
  refine ⟨r, o, hr, ho, hitems value ?_⟩
  rw [← hlayout]
  intro f hf
  obtain ⟨h0, hlt⟩ := hfits f hf
  rw [Layout.extract_of_shows hshows hf, Int.emod_eq_of_lt h0 hlt]

end

/-- For every template of letters only, extraction and combination can be made under all known
settings. Combining the extracted values gives back the integer as far as the template reaches, and
extracting from combined values that fit gives back the values. -/
theorem extraction_combination_inverse (sx : Extraction.Settings) (sc : StorageSettings)
    (fallback : Option String) {template : Template} {ex ec : Engine} {policy : Overflow}
    {precision : Precision} {minimum : Option Shape}
    (hletters : ∀ cell ∈ template.cells, ∃ a, cell = .field a)
    (hxtemplate : Template.ofValue sx.template sx.base = .ok template)
    (hxengine : Engine.select sx.engine fallback = .ok ex)
    (hprecision : Precision.ofValue sx.precision = .ok precision)
    (hminimum : Shape.least sx.minimum (.precision precision) = .ok minimum)
    (hctemplate : Template.ofValue sc.template sc.base = .ok template)
    (hcengine : Engine.select sc.engine fallback = .ok ec)
    (hpolicy : Overflow.ofValue sc.overflow = .ok policy) (hwidths : sc.widths = .none) :
    ∃ x c, Extraction.make sx fallback = .ok x ∧ Combination.make sc fallback = .ok c ∧
      (∀ n : Int, ∃ o, x.run (.int n) = .ok o ∧
        c.call o.items [] = .ok (.value (.int (n % 2 ^ template.width)))) ∧
      (∀ (value : Letter → Int) (values : List Value),
        (∀ a ∈ template.names, 0 ≤ value a ∧ value a < 2 ^ template.cells.count (.field a)) →
        Stands values (template.names.map value) →
        ∃ r o, c.call values [] = .ok (.value (.int r)) ∧ x.run (.int r) = .ok o ∧
          Stands o.items (template.names.map value)) := by
  have hliterals : ∀ cell ∈ template.cells, cell.isLiteral = false := by
    intro cell hcell
    obtain ⟨a, rfl⟩ := hletters cell hcell
    rfl
  have hplaceholders : ∀ cell ∈ template.cells, cell.isPlaceholder = false := by
    intro cell hcell
    obtain ⟨a, rfl⟩ := hletters cell hcell
    rfl
  obtain ⟨x, hx, hxlayout, _⟩ :=
    Extraction.exists_make hxengine hxtemplate hliterals hprecision hminimum
  obtain ⟨c, hc, hclayout⟩ :=
    Combination.exists_make hcengine hctemplate hplaceholders hpolicy hwidths
  have hlayout : c.layout = x.layout := by rw [hclayout, hxlayout]
  have htemplate : x.layout.template = template := by rw [hxlayout]
  refine ⟨x, c, hx, hc, ?_, ?_⟩
  · intro n
    rw [← htemplate] at hletters ⊢
    exact call_extracted hx hc hlayout hletters n
  · intro value values hvalue hvalues
    rw [← htemplate] at hvalue hvalues ⊢
    have hfits : x.layout.Fits value := by
      intro f hf
      obtain ⟨a, ha, rfl⟩ := (x.layout.mem_fields_iff f).mp hf
      rw [Template.width_field]
      exact hvalue a ha
    rw [← x.layout.names_eq] at hvalues ⊢
    exact run_combined hx hc hlayout hfits hvalues

/-- Three interleaved letters under the policy that lets values spill. -/
theorem extraction_combination_inverse_interleaved :
    ∃ x c, Extraction.make { template := .text "abcabcab" } none = .ok x ∧
      Combination.make { template := .text "abcabcab", overflow := .text "corrupt" } none =
        .ok c ∧
      (∃ o, x.run (.int (-5)) = .ok o ∧ c.call o.items [] = .ok (.value (.int 251))) ∧
      ∃ r o, c.call [.int 6, .int 5, .bool true] [] = .ok (.value (.int r)) ∧
        x.run (.int r) = .ok o ∧ Stands o.items [6, 5, 1] := by
  obtain ⟨value, hvalue⟩ : ∃ value : Letter → Int, value = fun a =>
      if a.char = 'a' then 6 else if a.char = 'b' then 5 else 1 := ⟨_, rfl⟩
  have heval : (Template.ofValue (.text "abcabcab") (.base .binary)).map (fun t =>
      (t.width, t.cells.all fun cell => cell.letter?.isSome, t.names.map value,
        t.names.all fun a => decide (0 ≤ value a ∧ value a < 2 ^ t.cells.count (.field a)))) =
      .ok (8, true, [6, 5, 1], true) := by
    subst hvalue
    rfl
  rw [map_eq_ok_iff] at heval
  obtain ⟨template, htemplate, hfacts⟩ := heval
  simp only [Prod.mk.injEq, List.all_eq_true, decide_eq_true_eq] at hfacts
  obtain ⟨hwidth, hcells, hnames, hfits⟩ := hfacts
  have hletters : ∀ cell ∈ template.cells, ∃ a, cell = .field a := by
    intro cell hcell
    cases cell with
    | field a => exact ⟨a, rfl⟩
    | placeholder => exact absurd (hcells _ hcell) (by decide)
    | literal digit => exact absurd (hcells _ hcell) (by simp [Cell.letter?])
  obtain ⟨x, c, hx, hc, hsplit, hcombine⟩ := extraction_combination_inverse
    { template := .text "abcabcab" }
    { template := .text "abcabcab", overflow := .text "corrupt" } none
    hletters htemplate rfl rfl rfl htemplate rfl rfl rfl
  have hback := hsplit (-5)
  rw [hwidth] at hback
  have hforth := hcombine value [.int 6, .int 5, .bool true] hfits (by
    rw [hnames]
    exact .cons rfl (.cons rfl (.cons rfl .nil)))
  rw [hnames] at hforth
  exact ⟨x, c, hx, hc, hback, hforth⟩

end BitTemplate
