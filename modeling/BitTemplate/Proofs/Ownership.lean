import BitTemplate.Proofs.Cells
import BitTemplate.Proofs.Failure
import BitTemplate.Value.Reading

/-!
Every bit of a template has exactly one owner: a field, the placeholders or the literals. The mask
of a field is put together from its segments, but it is the mask of the cells of its letter, as the
other masks are masks of their cells. So all owners number the bits in the same way, and what their
kinds of cells share or leave out, their masks do. The fields are those that a single pass from
left to right finds, which notes every position at its letter.
-/
namespace BitTemplate

section Masks

variable (kind other : Cell → Bool) (cells : List Cell)

theorem testBit_maskOf (b : Nat) :
    (maskOf kind cells).testBit b = ((cells.reverse[b]?).map kind).getD false := by
  rw [maskOf_eq_ofDigits, Bits.testBit_ofDigits, ← List.map_reverse, List.getElem?_map]

/-- Bits count from the right and positions from the left. -/
theorem testBit_maskOf_position {p : Nat} (hp : p < cells.length) :
    (maskOf kind cells).testBit (cells.length - 1 - p) = ((cells[p]?).map kind).getD false := by
  have hback : cells.length - 1 - (cells.length - 1 - p) = p := by omega
  rw [testBit_maskOf, List.getElem?_reverse (by omega), hback]

theorem maskOf_and :
    maskOf kind cells &&& maskOf other cells =
      maskOf (fun cell => kind cell && other cell) cells := by
  apply Nat.eq_of_testBit_eq
  intro b
  rw [Nat.testBit_and, testBit_maskOf, testBit_maskOf, testBit_maskOf]
  cases cells.reverse[b]? <;> rfl

theorem maskOf_or :
    maskOf kind cells ||| maskOf other cells =
      maskOf (fun cell => kind cell || other cell) cells := by
  apply Nat.eq_of_testBit_eq
  intro b
  rw [Nat.testBit_or, testBit_maskOf, testBit_maskOf, testBit_maskOf]
  cases cells.reverse[b]? <;> rfl

theorem maskOf_none : maskOf (fun _ => false) cells = 0 := by
  apply Nat.eq_of_testBit_eq
  intro b
  rw [testBit_maskOf, Nat.zero_testBit]
  cases cells.reverse[b]? <;> rfl

theorem maskOf_all : maskOf (fun _ => true) cells = 2 ^ cells.length - 1 := by
  apply Nat.eq_of_testBit_eq
  intro b
  rw [testBit_maskOf, Nat.testBit_two_pow_sub_one]
  by_cases hb : b < cells.length
  · simp [hb]
  · simp [hb]

theorem maskOf_congr {kind other : Cell → Bool} {cells : List Cell}
    (h : ∀ cell ∈ cells, kind cell = other cell) : maskOf kind cells = maskOf other cells := by
  rw [maskOf_eq_ofDigits, maskOf_eq_ofDigits, List.map_congr_left h]

/-- The union of the masks of several kinds is the mask of the cells of any of them. -/
theorem foldl_or_maskOf (kinds : List (Cell → Bool)) :
    (kinds.map fun kind => maskOf kind cells).foldl (· ||| ·) 0 =
      maskOf (fun cell => kinds.any fun kind => kind cell) cells := by
  have hstart : ∀ start : Cell → Bool,
      (kinds.map fun kind => maskOf kind cells).foldl (· ||| ·) (maskOf start cells) =
        maskOf (fun cell => start cell || kinds.any fun kind => kind cell) cells := by
    induction kinds with
    | nil => simp
    | cons kind rest ih =>
      intro start
      rw [List.map_cons, List.foldl_cons, maskOf_or, ih]
      simp [Bool.or_assoc]
  have hnone := hstart fun _ => false
  rw [maskOf_none] at hnone
  simpa using hnone

end Masks

/-- Whether a cell belongs to a letter. -/
def Cell.belongs (a : Letter) (cell : Cell) : Bool := decide (cell = .field a)

namespace Template

/-- The segments of a field cover the cells of its letter. -/
theorem mask_field (t : Template) (a : Letter) (h : a ∈ t.names) :
    (t.field a h).mask = maskOf (Cell.belongs a) t.cells := by
  apply Nat.eq_of_testBit_eq
  intro b
  rw [Bool.eq_iff_iff, Field.testBit_mask_iff, testBit_maskOf_iff]
  constructor
  · intro hmove
    obtain ⟨i, hmove⟩ := hmove
    obtain ⟨p, hcell, hb, _⟩ := (t.field_moves_iff a h b i).mp hmove
    exact ⟨p, .field a, hcell, by simp [Cell.belongs], by rw [length_cells]; exact hb⟩
  · intro hcell
    obtain ⟨p, cell, hcell, hbelongs, hb⟩ := hcell
    have hletter : cell = .field a := by simpa [Cell.belongs] using hbelongs
    rw [hletter] at hcell
    rw [length_cells] at hb
    obtain ⟨f, hf, hname, hmove⟩ := Layout.moves_of_cell (l := ⟨t⟩) hcell hb
    obtain ⟨a', ha', rfl⟩ := (Layout.mem_fields_iff ⟨t⟩ f).mp hf
    have hsame : a' = a := hname
    subst hsame
    exact ⟨_, hmove⟩

end Template

namespace Layout

/-- The masks of all owners of bits: the fields, the placeholders and the literals. -/
def owners (l : Layout) : List Nat :=
  l.fields.map Field.mask ++ [l.template.placeholderMask, l.template.literalMask]

/-- The kinds of cells that have an owner in common. -/
def ownedKinds (l : Layout) : List (Cell → Bool) :=
  l.template.names.map Cell.belongs ++ [Cell.isPlaceholder, Cell.isLiteral]

theorem owners_eq (l : Layout) :
    l.owners = l.ownedKinds.map fun kind => maskOf kind l.template.cells := by
  have hfields : l.fields.map Field.mask =
      (l.template.names.map Cell.belongs).map fun kind => maskOf kind l.template.cells := by
    rw [fields, List.map_map, List.map_map, ← List.attach_map_val (l := l.template.names)]
    exact List.map_congr_left fun a _ => l.template.mask_field a.1 a.2
  rw [owners, ownedKinds, hfields, List.map_append]
  rfl

/-- No cell has two owners. -/
theorem ownedKinds_exclusive (l : Layout) :
    l.ownedKinds.Pairwise fun kind other => ∀ cell, (kind cell && other cell) = false := by
  rw [ownedKinds, List.pairwise_append]
  refine ⟨?_, ?_, ?_⟩
  · rw [List.pairwise_map]
    refine l.template.nodup_names.imp ?_
    intro a b hne cell
    cases cell with
    | field c =>
      simp only [Cell.belongs, Cell.field.injEq, Bool.and_eq_false_iff, decide_eq_false_iff_not]
      by_cases hca : c = a
      · exact Or.inr fun hcb => hne (hca.symm.trans hcb)
      · exact Or.inl hca
    | placeholder => rfl
    | literal digit => rfl
  · rw [List.pairwise_pair]
    intro cell
    cases cell <;> rfl
  · intro kind hkind other hother cell
    obtain ⟨a, _, rfl⟩ := List.mem_map.mp hkind
    simp only [List.mem_cons, List.not_mem_nil, or_false] at hother
    rcases hother with rfl | rfl
    · cases cell <;> simp [Cell.belongs, Cell.isPlaceholder]
    · cases cell <;> simp [Cell.belongs, Cell.isLiteral]

/-- Every cell of the template has an owner. -/
theorem ownedKinds_exhaustive (l : Layout) {cell : Cell} (h : cell ∈ l.template.cells) :
    (l.ownedKinds.any fun kind => kind cell) = true := by
  rw [List.any_eq_true]
  cases cell with
  | field a =>
    have ha : a ∈ l.template.names := (l.template.mem_names a).mpr h
    refine ⟨Cell.belongs a, ?_, by simp [Cell.belongs]⟩
    exact List.mem_append_left _ (List.mem_map_of_mem ha)
  | placeholder => exact ⟨Cell.isPlaceholder, by simp [ownedKinds], rfl⟩
  | literal digit => exact ⟨Cell.isLiteral, by simp [ownedKinds], rfl⟩

theorem owners_disjoint (l : Layout) : l.owners.Pairwise fun m n => m &&& n = 0 := by
  rw [owners_eq, List.pairwise_map]
  refine l.ownedKinds_exclusive.imp ?_
  intro kind other hexclusive
  rw [maskOf_and, funext hexclusive, maskOf_none]

theorem owners_union (l : Layout) : l.owners.foldl (· ||| ·) 0 = 2 ^ l.width - 1 := by
  have hall : maskOf (fun cell => l.ownedKinds.any fun kind => kind cell) l.template.cells =
      maskOf (fun _ => true) l.template.cells :=
    maskOf_congr fun cell hcell => l.ownedKinds_exhaustive hcell
  rw [owners_eq, foldl_or_maskOf, hall, maskOf_all, Template.length_cells]
  rfl

end Layout

/-- A literal one is a literal. -/
theorem Template.literalValue_subset (t : Template) :
    t.literalValue &&& t.literalMask = t.literalValue := by
  rw [literalValue, literalMask, maskOf_and]
  apply maskOf_congr
  intro cell _
  cases cell with
  | field a => rfl
  | placeholder => rfl
  | literal digit => exact Bool.and_true digit

/-- The letters of a template stand in the order of their first cells. -/
theorem lettersOf_ordered (cells : List Cell) :
    (lettersOf cells).Pairwise fun a b => cells.idxOf (.field a) < cells.idxOf (.field b) := by
  induction cells with
  | nil => exact List.Pairwise.nil
  | cons cell rest ih =>
    -- Behind the first cell all indices are larger by one.
    have hbehind : ∀ a, cell ≠ .field a →
        (cell :: rest).idxOf (.field a) = rest.idxOf (.field a) + 1 := by
      intro a hne
      exact List.idxOf_cons_ne rest hne
    cases cell with
    | field a =>
      change (a :: (lettersOf rest).filter (· ≠ a)).Pairwise _
      rw [List.pairwise_cons]
      constructor
      · intro b hb
        have hba : b ≠ a := by simpa using List.of_mem_filter hb
        rw [List.idxOf_cons_self, hbehind b fun h => hba (Cell.field.inj h).symm]
        omega
      · rw [List.pairwise_filter]
        refine ih.imp ?_
        intro b c hbc hb hc
        have hba : b ≠ a := by simpa using hb
        have hca : c ≠ a := by simpa using hc
        rw [hbehind b fun h => hba (Cell.field.inj h).symm,
          hbehind c fun h => hca (Cell.field.inj h).symm]
        omega
    | placeholder =>
      refine List.Pairwise.imp ?_ ih
      intro a b hab
      rw [hbehind a (by simp), hbehind b (by simp)]
      omega
    | literal digit =>
      refine List.Pairwise.imp ?_ ih
      intro a b hab
      rw [hbehind a (by simp), hbehind b (by simp)]
      omega

theorem mem_positionsFrom_iff (a : Letter) (cells : List Cell) (p : Nat) :
    p ∈ positionsFrom a 0 cells ↔ cells[p]? = some (.field a) := by
  rw [List.mem_iff_getElem?]
  constructor
  · intro h
    obtain ⟨j, hj⟩ := h
    obtain ⟨q, hq, hcell, _⟩ := (getElem?_positionsFrom_iff a 0 cells j p).mp hj
    rw [Nat.zero_add] at hq
    rwa [hq]
  · intro h
    exact ⟨_, (getElem?_positionsFrom_iff a 0 cells _ p).mpr ⟨p, (Nat.zero_add p).symm, h, rfl⟩⟩

/-- Note a position at a letter. A letter that was not met before comes last. -/
def note (a : Letter) (p : Nat) : List (Letter × List Nat) → List (Letter × List Nat)
  | [] => [(a, [p])]
  | entry :: rest =>
    if entry.1 = a then (a, entry.2 ++ [p]) :: rest else entry :: note a p rest

/-- Go through cells from left to right and note their positions, the first of which is given. -/
def scan : Nat → List (Letter × List Nat) → List Cell → List (Letter × List Nat)
  | _, found, [] => found
  | p, found, .field a :: rest => scan (p + 1) (note a p found) rest
  | p, found, _ :: rest => scan (p + 1) found rest

/-- The letters of some cells with their positions. -/
def positionTable (cells : List Cell) : List (Letter × List Nat) :=
  (lettersOf cells).map fun a => (a, positionsFrom a 0 cells)

theorem note_map (a : Letter) (p : Nat) (letters : List Letter) (places : Letter → List Nat)
    (h : letters.Nodup) :
    note a p (letters.map fun b => (b, places b)) =
      if a ∈ letters then letters.map fun b => (b, if b = a then places b ++ [p] else places b)
      else (letters.map fun b => (b, places b)) ++ [(a, [p])] := by
  induction letters with
  | nil => rfl
  | cons b rest ih =>
    rw [List.nodup_cons] at h
    rw [List.map_cons, note]
    by_cases hba : b = a
    · subst hba
      have hothers : (rest.map fun c => (c, if c = b then places c ++ [p] else places c)) =
          rest.map fun c => (c, places c) := by
        apply List.map_congr_left
        intro c hc
        have hcb : c ≠ b := fun hcb => h.1 (hcb ▸ hc)
        rw [if_neg hcb]
      simp [hothers]
    · have hab : a ≠ b := Ne.symm hba
      rw [if_neg hba, ih h.2]
      by_cases ha : a ∈ rest
      · simp [ha, hba]
      · simp [ha, hab]

theorem firstOccurrences_concat {α : Type} [DecidableEq α] (xs : List α) (a : α) :
    firstOccurrences (xs ++ [a]) =
      if a ∈ xs then firstOccurrences xs else firstOccurrences xs ++ [a] := by
  induction xs with
  | nil => rfl
  | cons x rest ih =>
    rw [List.cons_append, firstOccurrences, firstOccurrences, ih]
    by_cases ha : a ∈ rest
    · simp [ha]
    · rw [if_neg ha]
      by_cases hax : a = x
      · simp [hax]
      · simp [ha, hax]

theorem positionsFrom_concat (a : Letter) (start : Nat) (cells : List Cell) (cell : Cell) :
    positionsFrom a start (cells ++ [cell]) = positionsFrom a start cells ++
      if cell = .field a then [start + cells.length] else [] := by
  induction cells generalizing start with
  | nil => simp [positionsFrom]
  | cons first rest ih =>
    have hnext : start + 1 + rest.length = start + (first :: rest).length := by
      rw [List.length_cons]
      omega
    rw [List.cons_append, positionsFrom, positionsFrom, ih, hnext]
    split <;> rfl

theorem lettersOf_concat (cells : List Cell) (a : Letter) :
    lettersOf (cells ++ [.field a]) =
      if a ∈ lettersOf cells then lettersOf cells else lettersOf cells ++ [a] := by
  rw [lettersOf, List.filterMap_append, lettersOf]
  simp only [mem_firstOccurrences]
  exact firstOccurrences_concat _ a

/-- One more cell with a letter is noted where the table has it. -/
theorem note_positionTable (cells : List Cell) (a : Letter) :
    note a cells.length (positionTable cells) = positionTable (cells ++ [.field a]) := by
  have hplaces : ∀ b, positionsFrom b 0 (cells ++ [.field a]) =
      if b = a then positionsFrom b 0 cells ++ [cells.length] else positionsFrom b 0 cells := by
    intro b
    rw [positionsFrom_concat, Nat.zero_add]
    by_cases hba : b = a
    · simp [hba]
    · have hab : a ≠ b := Ne.symm hba
      simp [hba, hab]
  have hnodup : (lettersOf cells).Nodup := nodup_firstOccurrences _
  rw [positionTable, note_map _ _ _ _ hnodup, positionTable, lettersOf_concat]
  simp only [hplaces]
  by_cases ha : a ∈ lettersOf cells
  · rw [if_pos ha, if_pos ha]
  · have hnone : positionsFrom a 0 cells = [] := by
      rw [List.eq_nil_iff_forall_not_mem]
      intro p hp
      rw [mem_positionsFrom_iff] at hp
      exact ha (mem_lettersOf.mpr (List.mem_of_getElem? hp))
    have hothers : (lettersOf cells).map (fun b => (b, positionsFrom b 0 cells)) =
        (lettersOf cells).map fun b =>
          (b, if b = a then positionsFrom b 0 cells ++ [cells.length]
            else positionsFrom b 0 cells) := by
      apply List.map_congr_left
      intro b hb
      have hba : b ≠ a := fun hba => ha (hba ▸ hb)
      rw [if_neg hba]
    rw [if_neg ha, if_neg ha, List.map_append, List.map_singleton, if_pos rfl, hnone, hothers]
    rfl

/-- A cell without a letter leaves the table as it is. -/
theorem positionTable_concat {cell : Cell} (h : cell.letter? = none) (cells : List Cell) :
    positionTable (cells ++ [cell]) = positionTable cells := by
  have hletters : lettersOf (cells ++ [cell]) = lettersOf cells := by
    rw [lettersOf, List.filterMap_append]
    simp [h, lettersOf]
  rw [positionTable, hletters, positionTable]
  apply List.map_congr_left
  intro a _
  have hne : cell ≠ .field a := by
    intro hfield
    rw [hfield] at h
    cases h
  rw [positionsFrom_concat, if_neg hne, List.append_nil]

/-- The pass keeps the table of the cells behind it. -/
theorem scan_positionTable (before cells : List Cell) :
    scan before.length (positionTable before) cells = positionTable (before ++ cells) := by
  induction cells generalizing before with
  | nil => rw [scan, List.append_nil]
  | cons cell rest ih =>
    have hnext := ih (before ++ [cell])
    rw [List.length_append, List.length_singleton, List.append_assoc] at hnext
    cases cell with
    | field a =>
      rw [scan, note_positionTable]
      exact hnext
    | placeholder =>
      rw [positionTable_concat rfl] at hnext
      exact hnext
    | literal digit =>
      rw [positionTable_concat rfl] at hnext
      exact hnext

/-- The fields of a layout are what a single pass over the cells finds. -/
theorem Layout.fields_eq_scan (l : Layout) :
    l.fields.map (fun f => (f.name, f.positions)) = scan 0 [] l.template.cells := by
  have hscan := scan_positionTable [] l.template.cells
  rw [List.nil_append] at hscan
  have htable : scan 0 [] l.template.cells = positionTable l.template.cells := hscan
  rw [htable, positionTable, fields, List.map_map]
  exact List.attach_map_val (l := l.template.names)
    (f := fun a => (a, positionsFrom a 0 l.template.cells))

/-- Every bit of a template has exactly one owner. The letters are listed in the order of their
first cells, a field has the positions of its cells from left to right, and the masks of the
fields, the placeholders and the literals are disjoint and make up the whole width. -/
theorem Layout.every_bit_owned (l : Layout) :
    l.names = l.template.names ∧
    (∀ a, a ∈ l.names ↔ .field a ∈ l.template.cells) ∧
    l.names.Pairwise (fun a b =>
      l.template.cells.idxOf (.field a) < l.template.cells.idxOf (.field b)) ∧
    l.fields.map (fun f => (f.name, f.positions)) = scan 0 [] l.template.cells ∧
    (∀ f ∈ l.fields, f.positions.Pairwise (· < ·) ∧
      ∀ p, p ∈ f.positions ↔ l.template.cells[p]? = some (.field f.name)) ∧
    l.owners.Pairwise (fun m n => m &&& n = 0) ∧
    l.owners.foldl (· ||| ·) 0 = 2 ^ l.width - 1 ∧
    l.template.literalValue &&& l.template.literalMask = l.template.literalValue := by
  have hnames := l.names_eq
  refine ⟨hnames, ?_, ?_, l.fields_eq_scan, ?_, l.owners_disjoint, l.owners_union,
    l.template.literalValue_subset⟩
  · intro a
    rw [hnames]
    exact l.template.mem_names a
  · rw [hnames]
    exact lettersOf_ordered l.template.cells
  · intro f hf
    obtain ⟨a, ha, rfl⟩ := (l.mem_fields_iff f).mp hf
    exact ⟨positionsFrom_pairwise a 0 l.template.cells,
      mem_positionsFrom_iff a l.template.cells⟩

/-- Two interleaved letters, a placeholder and two literals. -/
theorem Layout.every_bit_owned_interleaved :
    ∃ t f, Template.ofText (.text "ab.b1aa0") (.base .binary) = .ok t ∧
      f ∈ (⟨t⟩ : Layout).fields ∧ f.positions = [0, 5, 6] ∧
      (∀ p, p ∈ f.positions ↔ t.cells[p]? = some (.field f.name)) ∧
      (⟨t⟩ : Layout).owners = [134, 80, 32, 9] ∧
      (⟨t⟩ : Layout).owners.Pairwise (fun m n => m &&& n = 0) ∧
      (⟨t⟩ : Layout).owners.foldl (· ||| ·) 0 = 2 ^ 8 - 1 := by
  have heval : (Template.ofText (.text "ab.b1aa0") (.base .binary)).map (fun t =>
      (t.width, (⟨t⟩ : Layout).owners, (⟨t⟩ : Layout).fields.head?.map Field.positions)) =
      .ok (8, [134, 80, 32, 9], some [0, 5, 6]) := by rfl
  rw [Failure.map_eq_ok_iff] at heval
  obtain ⟨t, ht, hfacts⟩ := heval
  simp only [Prod.mk.injEq, Option.map_eq_some_iff] at hfacts
  obtain ⟨hwidth, howners, f, hfirst, hpositions⟩ := hfacts
  have hf : f ∈ (⟨t⟩ : Layout).fields := List.mem_of_head? hfirst
  obtain ⟨_, _, _, _, hfields, hdisjoint, hunion, _⟩ := every_bit_owned ⟨t⟩
  refine ⟨t, f, ht, hf, hpositions, (hfields f hf).2, howners, hdisjoint, ?_⟩
  rw [hunion, Layout.width, hwidth]

end BitTemplate
