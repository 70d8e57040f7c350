import BitTemplate.Layout
import BitTemplate.Proofs.Segments

/-!
Which cell of a template owns which bit. The cell at position `p` of a `w`-bit template owns bit
`w - 1 - p`. The masks of a template have their ones at the bits of the cells of their kind. A
field occupies the cells of its letter, and its bits are numbered by the occurrences of the letter
from the right. Different fields share no bit, and no field has a bit of a placeholder or a
literal.
-/
namespace BitTemplate

theorem maskOf_eq_ofDigits (kind : Cell → Bool) (cells : List Cell) :
    maskOf kind cells = Bits.ofDigits (cells.map kind) := by
  rw [maskOf, Bits.ofDigits, List.foldl_map]

theorem testBit_maskOf_iff (kind : Cell → Bool) (cells : List Cell) (b : Nat) :
    (maskOf kind cells).testBit b = true ↔
      ∃ p cell, cells[p]? = some cell ∧ kind cell = true ∧ p + b + 1 = cells.length := by
  rw [maskOf_eq_ofDigits, Bits.testBit_ofDigits_iff, List.length_map]
  constructor
  · rintro ⟨p, hp, hsum⟩
    rw [List.getElem?_map, Option.map_eq_some_iff] at hp
    obtain ⟨cell, hcell, hkind⟩ := hp
    exact ⟨p, cell, hcell, hkind, hsum⟩
  · rintro ⟨p, cell, hcell, hkind, hsum⟩
    refine ⟨p, ?_, hsum⟩
    rw [List.getElem?_map, hcell, Option.map_some, hkind]

theorem maskOf_lt (kind : Cell → Bool) (cells : List Cell) :
    maskOf kind cells < 1 <<< cells.length := by
  rw [Nat.one_shiftLeft]
  apply Nat.lt_pow_two_of_testBit
  intro b hb
  rw [Bool.eq_false_iff, ne_eq, testBit_maskOf_iff]
  rintro ⟨p, _, _, _, hsum⟩
  omega

theorem nodup_firstOccurrences {α : Type} [DecidableEq α] (xs : List α) :
    (firstOccurrences xs).Nodup := by
  induction xs with
  | nil => simp [firstOccurrences]
  | cons a rest ih =>
    rw [firstOccurrences, List.nodup_cons]
    refine ⟨?_, ih.filter _⟩
    simp

theorem length_positionsFrom (a : Letter) (start : Nat) (cells : List Cell) :
    (positionsFrom a start cells).length = cells.count (.field a) := by
  induction cells generalizing start with
  | nil => rfl
  | cons cell rest ih =>
    unfold positionsFrom
    split
    · rename_i heq
      rw [List.length_cons, ih, heq, List.count_cons_self]
    · rename_i hne
      rw [ih, List.count_cons_of_ne hne]

/-- Number `j` among the positions of a letter is the cell that `j` cells of the letter stand
before. -/
theorem getElem?_positionsFrom_iff (a : Letter) (start : Nat) (cells : List Cell) (j p : Nat) :
    (positionsFrom a start cells)[j]? = some p ↔
      ∃ q, p = start + q ∧ cells[q]? = some (.field a) ∧
        (cells.take q).count (.field a) = j := by
  induction cells generalizing start j with
  | nil => simp [positionsFrom]
  | cons cell rest ih =>
    unfold positionsFrom
    split
    · rename_i heq
      subst heq
      cases j with
      | zero =>
        rw [List.getElem?_cons_zero, Option.some.injEq]
        constructor
        · rintro rfl
          exact ⟨0, rfl, rfl, rfl⟩
        · rintro ⟨q, hp, _, hcount⟩
          cases q with
          | zero => simpa using hp.symm
          | succ q => simp [List.take_succ_cons] at hcount
      | succ j =>
        rw [List.getElem?_cons_succ, ih]
        constructor
        · rintro ⟨q, hp, hq, hcount⟩
          refine ⟨q + 1, by omega, by simpa using hq, ?_⟩
          rw [List.take_succ_cons, List.count_cons_self, hcount]
        · rintro ⟨q, hp, hq, hcount⟩
          cases q with
          | zero => simp at hcount
          | succ q =>
            rw [List.take_succ_cons, List.count_cons_self] at hcount
            exact ⟨q, by omega, by simpa using hq, by omega⟩
    · rename_i hne
      rw [ih]
      constructor
      · rintro ⟨q, hp, hq, hcount⟩
        refine ⟨q + 1, by omega, by simpa using hq, ?_⟩
        rw [List.take_succ_cons, List.count_cons_of_ne hne, hcount]
      · rintro ⟨q, hp, hq, hcount⟩
        cases q with
        | zero =>
          rw [List.getElem?_cons_zero, Option.some.injEq] at hq
          exact absurd hq hne
        | succ q =>
          rw [List.take_succ_cons, List.count_cons_of_ne hne] at hcount
          exact ⟨q, by omega, by simpa using hq, hcount⟩

namespace Template

theorem nodup_names (t : Template) : t.names.Nodup := nodup_firstOccurrences _

theorem width_field (t : Template) (a : Letter) (h : a ∈ t.names) :
    (t.field a h).width = t.cells.count (.field a) :=
  length_positionsFrom a 0 t.cells

/-- A field ties the bit of each cell of its letter to the bit of the value that is numbered by
the later cells of the letter. -/
theorem field_moves_iff (t : Template) (a : Letter) (h : a ∈ t.names) (b i : Nat) :
    (t.field a h).Moves b i ↔
      ∃ p, t.cells[p]? = some (.field a) ∧ p + b + 1 = t.width ∧
        (t.cells.take p).count (.field a) + i + 1 = t.cells.count (.field a) := by
  rw [Field.moves_iff, width_field]
  change (∃ j p, (positionsFrom a 0 t.cells)[j]? = some p ∧ p + b + 1 = t.width ∧ _) ↔ _
  constructor
  · rintro ⟨j, p, hp, hb, hi⟩
    obtain ⟨q, hq, hcell, hcount⟩ := (getElem?_positionsFrom_iff a 0 t.cells j p).mp hp
    have hpq : p = q := by omega
    subst hpq
    exact ⟨p, hcell, hb, by omega⟩
  · rintro ⟨p, hcell, hb, hi⟩
    exact ⟨_, p, (getElem?_positionsFrom_iff a 0 t.cells _ p).mpr ⟨p, by omega, hcell, rfl⟩, hb, hi⟩

end Template

namespace Layout

theorem mem_fields_iff (l : Layout) (f : Field) :
    f ∈ l.fields ↔ ∃ a, ∃ h : a ∈ l.template.names, f = l.template.field a h := by
  unfold fields
  rw [List.mem_map]
  constructor
  · rintro ⟨⟨a, h⟩, _, rfl⟩
    exact ⟨a, h, rfl⟩
  · rintro ⟨a, h, rfl⟩
    exact ⟨⟨a, h⟩, List.mem_attach _ _, rfl⟩

theorem names_eq (l : Layout) : l.names = l.template.names := by
  unfold names fields
  rw [List.map_map]
  exact List.attach_map_subtype_val l.template.names

theorem nodup_names (l : Layout) : l.names.Nodup := by
  rw [names_eq]
  exact l.template.nodup_names

theorem length_fields (l : Layout) : l.fields.length = l.names.length := by
  simp [names]

theorem templateWidth_of_mem (l : Layout) {f : Field} (hf : f ∈ l.fields) :
    f.templateWidth = l.width := by
  obtain ⟨a, h, rfl⟩ := (l.mem_fields_iff f).mp hf
  rfl

/-- A field that moves the bit of a cell has the letter of that cell and moves the bit that is
numbered by the later cells of the letter. -/
theorem cell_of_moves {l : Layout} {f : Field} (hf : f ∈ l.fields) {b i p : Nat}
    (hmove : f.Moves b i) (hp : p + b + 1 = l.width) :
    l.template.cells[p]? = some (.field f.name) ∧
      i = l.template.cells.count (.field f.name) - 1 -
        (l.template.cells.take p).count (.field f.name) := by
  obtain ⟨a, ha, rfl⟩ := (l.mem_fields_iff f).mp hf
  obtain ⟨q, hcell, hq, hi⟩ := (l.template.field_moves_iff a ha b i).mp hmove
  have hqp : q = p := by
    unfold width at hp
    omega
  subst hqp
  refine ⟨hcell, ?_⟩
  change i = l.template.cells.count (.field a) - 1 - (l.template.cells.take q).count (.field a)
  omega

theorem moves_of_cell {l : Layout} {a : Letter} {b p : Nat}
    (hcell : l.template.cells[p]? = some (.field a)) (hp : p + b + 1 = l.width) :
    ∃ f ∈ l.fields, f.name = a ∧ f.Moves b
      (l.template.cells.count (.field a) - 1 - (l.template.cells.take p).count (.field a)) := by
  have ha : a ∈ l.template.names := (l.template.mem_names a).mpr (List.mem_of_getElem? hcell)
  have hposition := (getElem?_positionsFrom_iff a 0 l.template.cells _ p).mpr
    ⟨p, (Nat.zero_add p).symm, hcell, rfl⟩
  have hearlier := (List.getElem?_eq_some_iff.mp hposition).1
  rw [length_positionsFrom] at hearlier
  refine ⟨l.template.field a ha, (l.mem_fields_iff _).mpr ⟨a, ha, rfl⟩, rfl, ?_⟩
  exact (l.template.field_moves_iff a ha b _).mpr ⟨p, hcell, hp, by omega⟩

end Layout

end BitTemplate
