import BitTemplate.Proofs.Engines

/-!
What combination and replacement return, bit by bit. Every cell of the template decides the bit at
its position: a literal is its own digit, a placeholder lets the bit of the target through, and the
cell of a letter shows one bit of the value of that letter, the last cell the lowest one. This
holds as long as no value spills over, which only one policy allows.
-/
namespace BitTemplate

open Failure

/-- The value that is stored in some bits under a policy that does not refuse it. -/
def Overflow.lowered (policy : Overflow) (width : Nat) (value : Int) : Int :=
  match policy with
  | .saturate => min value (2 ^ width - 1)
  | _ => value

/-- The bit that a cell at a position stands for, given a target and the values of the letters. -/
def cellBit (cells : List Cell) (target : Int) (value : Letter → Int) (p : Nat) : Cell → Bool
  | .literal digit => digit
  | .placeholder => Bits.bit target (cells.length - 1 - p)
  | .field a =>
    Bits.bit (value a) (cells.count (.field a) - 1 - (cells.take p).count (.field a))

/-- An integer with one bit for each cell, all of them as the cells want. -/
structure Shows (cells : List Cell) (target : Int) (value : Letter → Int) (r : Int) : Prop where
  nonneg : 0 ≤ r
  bounded : r < 2 ^ cells.length
  bits : ∀ p cell, cells[p]? = some cell →
    Bits.bit r (cells.length - 1 - p) = cellBit cells target value p cell

namespace Slot

/-- Without a declared width, only a value above the limit is refused, and only by one policy. -/
theorem pass_eq {s : Slot} (hsource : s.sourceWidth = none) (value : Int) :
    s.pass value =
      if s.overflow = .panic ∧ 2 ^ s.width - 1 < value then
        .error (.excess (.ofLetter s.name) value (.int s.width))
      else .ok (s.overflow.lowered s.width value) := by
  have hchecked : s.checked = true := by
    unfold checked
    rw [hsource]
  unfold pass Overflow.lowered
  rw [if_pos hchecked, ← Bits.ones_eq]
  cases s.overflow with
  | truncate => simp
  | panic => simp
  | corrupt => simp
  | saturate => simp

/-- A value that passes goes on as the policy of the slot lowers it. -/
theorem eq_lowered_of_pass {s : Slot} (hsource : s.sourceWidth = none) {value u : Int}
    (h : s.pass value = .ok u) : u = s.overflow.lowered s.width value := by
  rw [pass_eq hsource] at h
  split at h
  · cases h
  · exact (Except.ok.inj h).symm

theorem place_eq_deposit {s : Slot} (h : s.overflow ≠ .corrupt) (value : Int) :
    s.place value = s.field.deposit value := by
  have hspills : s.spills = false := by
    simp [spills, h]
  rw [place, hspills]
  rfl

end Slot

/-- Values that are given slot by slot pass slot by slot. -/
theorem passAll_map (slots : List Slot) (value : Slot → Int) :
    passAll slots (slots.map value) = slots.mapM fun s => s.pass (value s) := by
  induction slots with
  | nil => rfl
  | cons s rest ih => rw [List.map_cons, passAll_cons, ih, mapM_cons]

namespace Layout

theorem width_of_slot {l : Layout} {slots : List Slot} (h : slots.map Slot.field = l.fields)
    {slot : Slot} (hslot : slot ∈ slots) :
    slot.width = l.template.cells.count (.field slot.name) := by
  obtain ⟨a, ha, hfield⟩ := (l.mem_fields_iff slot.field).mp (field_of_slot h hslot)
  rw [Slot.width, Slot.name, hfield, Template.width_field]
  rfl

/-- Without spilling, a bit of the assembled integer is kept, fixed by a literal, or moved there by
the field of some letter. -/
theorem bit_assemble_iff {l : Layout} {slots : List Slot}
    (hfields : slots.map Slot.field = l.fields) (kept : Int) (value : Letter → Int)
    (hplace : ∀ s ∈ slots, s.place (value s.name) = s.field.deposit (value s.name)) (b : Nat) :
    Bits.bit (l.assemble kept slots (slots.map fun s => value s.name)) b = true ↔
      b < l.width ∧ (Bits.bit kept b = true ∨ l.template.literalValue.testBit b = true ∨
        ∃ f ∈ l.fields, ∃ i, f.Moves b i ∧ Bits.bit (value f.name) i = true) := by
  have hpieces : List.zipWith Slot.place slots (slots.map fun s => value s.name) =
      l.fields.map fun f => f.deposit (value f.name) := by
    rw [List.zipWith_map_right, List.zipWith_self, ← hfields, List.map_map]
    exact List.map_congr_left hplace
  rw [bit_assemble, hpieces]
  refine and_congr_right fun _ => or_congr_right (or_congr_right ?_)
  constructor
  · intro h
    obtain ⟨piece, hpiece, hbit⟩ := h
    obtain ⟨f, hf, rfl⟩ := List.mem_map.mp hpiece
    exact ⟨f, hf, (f.bit_deposit_iff _ b).mp hbit⟩
  · intro h
    obtain ⟨f, hf, hbit⟩ := h
    exact ⟨_, List.mem_map_of_mem hf, (f.bit_deposit_iff _ b).mpr hbit⟩

section Cell

variable {l : Layout} {p b : Nat} {cell : Cell} (hcell : l.template.cells[p]? = some cell)
  (hp : p + b + 1 = l.width)

include hcell hp

theorem bit_keptOf_cell (target : Int) :
    Bits.bit (l.keptOf target) b = true ↔ cell = .placeholder ∧ Bits.bit target b = true := by
  rw [bit_keptOf_iff, and_comm]
  refine and_congr_left fun _ => ?_
  constructor
  · intro h
    obtain ⟨q, hq, hsum⟩ := h
    have hqp : q = p := by omega
    rw [hqp, hcell] at hq
    exact Option.some.inj hq
  · intro h
    exact ⟨p, by rw [hcell, h], hp⟩

theorem testBit_literalValue_cell :
    l.template.literalValue.testBit b = true ↔ cell.isOne = true := by
  rw [Template.literalValue, testBit_maskOf_iff, Template.length_cells]
  constructor
  · intro h
    obtain ⟨q, other, hq, hone, hsum⟩ := h
    have hqp : q = p := by
      change q + b + 1 = l.width at hsum
      omega
    rw [hqp, hcell] at hq
    rwa [Option.some.inj hq]
  · intro h
    exact ⟨p, cell, hcell, h, hp⟩

theorem bit_moved_cell (value : Letter → Int) :
    (∃ f ∈ l.fields, ∃ i, f.Moves b i ∧ Bits.bit (value f.name) i = true) ↔
      ∃ a, cell = .field a ∧ Bits.bit (value a) (l.template.cells.count (.field a) - 1 -
        (l.template.cells.take p).count (.field a)) = true := by
  constructor
  · intro h
    obtain ⟨f, hf, i, hmove, hbit⟩ := h
    obtain ⟨hletter, hi⟩ := cell_of_moves hf hmove hp
    rw [hcell] at hletter
    rw [hi] at hbit
    exact ⟨f.name, Option.some.inj hletter, hbit⟩
  · intro h
    obtain ⟨a, ha, hbit⟩ := h
    subst ha
    obtain ⟨f, hf, hname, hmove⟩ := moves_of_cell hcell hp
    rw [← hname] at hbit hmove
    exact ⟨f, hf, _, hmove, hbit⟩

/-- The cell at a position decides the bit of the assembled integer there. -/
theorem bit_assemble_cell {slots : List Slot} (hfields : slots.map Slot.field = l.fields)
    (target : Int) (value : Letter → Int)
    (hplace : ∀ s ∈ slots, s.place (value s.name) = s.field.deposit (value s.name)) :
    Bits.bit (l.assemble (l.keptOf target) slots (slots.map fun s => value s.name)) b =
      cellBit l.template.cells target value p cell := by
  have hb : b < l.width := by omega
  have hposition : l.template.width - 1 - p = b := by
    change l.width - 1 - p = b
    omega
  rw [Bool.eq_iff_iff, bit_assemble_iff hfields _ value hplace, bit_keptOf_cell hcell hp,
    testBit_literalValue_cell hcell hp, bit_moved_cell hcell hp]
  cases cell with
  | literal digit => simp [hb, cellBit, Cell.isOne]
  | placeholder => simp [hb, cellBit, Cell.isOne, hposition]
  | field a => simp [hb, cellBit, Cell.isOne]

end Cell

theorem assemble_bounds (l : Layout) (kept : Int) (slots : List Slot) (values : List Int) :
    0 ≤ l.assemble kept slots values ∧ l.assemble kept slots values < 2 ^ l.width := by
  apply Bits.bounds_of_bits
  intro b hb
  rw [Bool.eq_false_iff, ne_eq, bit_assemble]
  intro h
  omega

/-- What is stored without spilling shows in the cells. -/
theorem shows_assemble {l : Layout} {slots : List Slot} (hfields : slots.map Slot.field = l.fields)
    (target : Int) (value : Letter → Int)
    (hplace : ∀ s ∈ slots, s.place (value s.name) = s.field.deposit (value s.name)) :
    Shows l.template.cells target value
      (l.assemble (l.keptOf target) slots (slots.map fun s => value s.name)) := by
  obtain ⟨hnonneg, hlt⟩ := l.assemble_bounds (l.keptOf target) slots
    (slots.map fun s => value s.name)
  refine ⟨hnonneg, ?_, ?_⟩
  · rwa [Template.length_cells]
  · intro p cell hcell
    have hp := (List.getElem?_eq_some_iff.mp hcell).1
    rw [Template.length_cells] at hp ⊢
    apply bit_assemble_cell hcell _ hfields target value hplace
    unfold width
    omega

/-- The values that pass a policy without spilling show in the cells as the policy lowers them. -/
theorem shows_of_passAll {l : Layout} {slots : List Slot} {policy : Overflow}
    (hfields : slots.map Slot.field = l.fields) (hpolicy : ∀ s ∈ slots, s.overflow = policy)
    (hsource : ∀ s ∈ slots, s.sourceWidth = none) (hcorrupt : policy ≠ .corrupt) (target : Int)
    {value : Letter → Int} {us : List Int} (h : passAll slots (l.names.map value) = .ok us) :
    Shows l.template.cells target
      (fun a => policy.lowered (l.template.cells.count (.field a)) (value a))
      (l.assemble (l.keptOf target) slots us) := by
  have hus : us = slots.map fun s =>
      policy.lowered (l.template.cells.count (.field s.name)) (value s.name) := by
    rw [← names_of_slots hfields, List.map_map, passAll_map] at h
    have hlowered := map_eq_of_mapM (g := id) (k := fun s =>
      policy.lowered (l.template.cells.count (.field s.name)) (value s.name)) (by
        intro s hs u hu
        rw [← width_of_slot hfields hs, ← hpolicy s hs]
        exact Slot.eq_lowered_of_pass (hsource s hs) hu) h
    rwa [List.map_id] at hlowered
  rw [hus]
  apply shows_assemble hfields target
    (fun a => policy.lowered (l.template.cells.count (.field a)) (value a))
  intro s hs
  apply Slot.place_eq_deposit
  rw [hpolicy s hs]
  exact hcorrupt

/-- The same for slots that declare nothing. -/
theorem shows_undeclared {l : Layout} {policy : Overflow} (hcorrupt : policy ≠ .corrupt)
    (target : Int) {value : Letter → Int} {us : List Int}
    (h : passAll (l.undeclared policy) (l.names.map value) = .ok us) :
    Shows l.template.cells target
      (fun a => policy.lowered (l.template.cells.count (.field a)) (value a))
      (l.assemble (l.keptOf target) (l.undeclared policy) us) := by
  refine shows_of_passAll (l.map_field_undeclared policy) ?_ ?_ hcorrupt target h
  · intro slot hslot
    obtain ⟨f, _, rfl⟩ := List.mem_map.mp hslot
    rfl
  · intro slot hslot
    obtain ⟨f, _, rfl⟩ := List.mem_map.mp hslot
    rfl

theorem passAll_undeclared (l : Layout) (policy : Overflow) (value : Letter → Int) :
    passAll (l.undeclared policy) (l.names.map value) = l.fields.mapM fun f =>
      if policy = .panic ∧ 2 ^ f.width - 1 < value f.name then
        .error (.excess (.ofLetter f.name) (value f.name) (.int f.width))
      else .ok (policy.lowered f.width (value f.name)) := by
  rw [← names_of_slots (l.map_field_undeclared policy), List.map_map, passAll_map, undeclared,
    List.mapM_map]
  refine congrArg (fun g => l.fields.mapM g) (funext fun f => ?_)
  exact Slot.pass_eq rfl _

end Layout

/-- Whatever a combination or a replacement returns under a policy without spilling shows the
literals, the target and the values in the cells of the template. -/
theorem result_shows_cells {s : StorageSettings} {policy : Overflow} (fallback : Option String)
    (hpolicy : Overflow.ofValue s.overflow = .ok policy) (hcorrupt : policy ≠ .corrupt)
    (hwidths : s.widths = .none) (value : Letter → Int) (values bound : List Value)
    (keywords : List (Value × Value)) (o : Outcome) :
    (∀ c, Combination.make s fallback = .ok c →
      c.layout.bind values keywords none = .ok bound → Stands bound (c.layout.names.map value) →
      c.call values keywords = .ok o → ∃ r, o = .value (.int r) ∧
        Shows c.layout.template.cells 0
          (fun a => policy.lowered (c.layout.template.cells.count (.field a)) (value a)) r) ∧
    (∀ x target t, Replacement.make s fallback = .ok x →
      x.layout.bind values keywords none = .ok bound → Stands bound (x.layout.names.map value) →
      target.toInt? = some t → x.call target values keywords = .ok o → ∃ r, o = .value (.int r) ∧
        Shows x.layout.template.cells t
          (fun a => policy.lowered (x.layout.template.cells.count (.field a)) (value a)) r) := by
  -- The slots are those of the fields, all under the one policy and without declared widths.
  have hslots : ∀ (l : Layout) (slots : List Slot),
      l.makeSlots s.overflow s.widths = .ok slots → slots.map Slot.field = l.fields ∧
        (∀ slot ∈ slots, slot.overflow = policy) ∧ ∀ slot ∈ slots, slot.sourceWidth = none := by
    intro l slots h
    obtain ⟨other, hother, hfields, hall, hsource⟩ := Layout.makeSlots_eq_ok h
    rw [hpolicy] at hother
    cases hother
    exact ⟨hfields, hall, hsource hwidths⟩
  constructor
  · intro c hc hbind hstands hcall
    obtain ⟨_, _, _, _, _, _, hmake, _⟩ := (Combination.make_eq_ok_iff s fallback c).mp hc
    obtain ⟨hfields, hall, hsource⟩ := hslots c.layout c.slots hmake
    rw [Combination.call_of_make hc hbind hstands, map_eq_ok_iff] at hcall
    obtain ⟨us, hus, rfl⟩ := hcall
    have hshows := Layout.shows_of_passAll hfields hall hsource hcorrupt 0 hus
    rw [Layout.keptOf_zero] at hshows
    exact ⟨_, rfl, hshows⟩
  · intro x target t hx hbind hstands ht hcall
    obtain ⟨_, _, _, _, _, hmake, _⟩ := (Replacement.make_eq_ok_iff s fallback x).mp hx
    obtain ⟨hfields, hall, hsource⟩ := hslots x.layout x.slots hmake
    rw [Replacement.call_of_make hx hbind ht hstands, map_eq_ok_iff] at hcall
    obtain ⟨us, hus, rfl⟩ := hcall
    exact ⟨_, rfl, Layout.shows_of_passAll hfields hall hsource hcorrupt t hus⟩

/-- Under saturation a value that is too large fills its cells with ones, and a negative one does
not. -/
theorem result_shows_cells_saturated :
    (∃ c, Combination.make { template := .text "ab1b0aba", overflow := .text "saturate" } none =
        .ok c ∧
      c.call [.int 9, .int (-3)] [] = .ok (.value (.int 231)) ∧
      Shows c.layout.template.cells 0 (fun a => Overflow.saturate.lowered
        (c.layout.template.cells.count (.field a)) (if a.char = 'a' then 9 else -3)) 231) ∧
    (∃ x, Replacement.make { template := .text "ab.b.aba", overflow := .text "saturate" } none =
        .ok x ∧
      x.call (.int (-1)) [.int 9, .int (-3)] [] = .ok (.value (.int 239)) ∧
      Shows x.layout.template.cells (-1) (fun a => Overflow.saturate.lowered
        (x.layout.template.cells.count (.field a)) (if a.char = 'a' then 9 else -3)) 239) := by
  constructor
  · have heval : (Combination.make { template := .text "ab1b0aba", overflow := .text "saturate" }
        none).map (fun c => (c.layout.bind [.int 9, .int (-3)] [] none,
          c.layout.names.map fun a => if a.char = 'a' then (9 : Int) else -3)) =
        .ok (.ok [.int 9, .int (-3)], [9, -3]) := by rfl
    simp only [map_eq_ok_iff, Prod.mk.injEq] at heval
    obtain ⟨c, hc, hbind, hnames⟩ := heval
    have hstands : Stands [.int 9, .int (-3)]
        (c.layout.names.map fun a => if a.char = 'a' then 9 else -3) := by
      rw [hnames]
      exact .cons rfl (.cons rfl .nil)
    have hcall : c.call [.int 9, .int (-3)] [] = .ok (.value (.int 231)) := by
      rw [Combination.call_of_make hc hbind hstands, hnames]
      exact eq_of_map_eq_ok hc (fun c => (passAll c.slots [9, -3]).map fun us =>
        Program.single (c.layout.assemble 0 c.slots us)) (by rfl)
    obtain ⟨r, hr, hshows⟩ := (result_shows_cells none rfl (by decide) rfl _ _ _ [] _).1 c hc hbind
      hstands hcall
    cases hr
    exact ⟨c, hc, hcall, hshows⟩
  · have heval : (Replacement.make { template := .text "ab.b.aba", overflow := .text "saturate" }
        none).map (fun x => (x.layout.bind [.int 9, .int (-3)] [] none,
          x.layout.names.map fun a => if a.char = 'a' then (9 : Int) else -3)) =
        .ok (.ok [.int 9, .int (-3)], [9, -3]) := by rfl
    simp only [map_eq_ok_iff, Prod.mk.injEq] at heval
    obtain ⟨x, hx, hbind, hnames⟩ := heval
    have hstands : Stands [.int 9, .int (-3)]
        (x.layout.names.map fun a => if a.char = 'a' then 9 else -3) := by
      rw [hnames]
      exact .cons rfl (.cons rfl .nil)
    have hcall : x.call (.int (-1)) [.int 9, .int (-3)] [] = .ok (.value (.int 239)) := by
      rw [Replacement.call_of_make hx hbind rfl hstands, hnames]
      exact eq_of_map_eq_ok hx (fun x => (passAll x.slots [9, -3]).map fun us =>
        Program.single (x.layout.assemble (x.layout.keptOf (-1)) x.slots us)) (by rfl)
    obtain ⟨r, hr, hshows⟩ := (result_shows_cells none rfl (by decide) rfl _ _ _ [] _).2 x
      (.int (-1)) (-1) hx hbind hstands rfl hcall
    cases hr
    exact ⟨x, hx, hcall, hshows⟩

end BitTemplate
