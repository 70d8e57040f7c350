import BitTemplate.Proofs.Expansion
import BitTemplate.Proofs.Spill

/-!
Where a letter is first written. All cells of a letter come from characters that are that letter,
so that the first of them, from which the origin of the letter is taken, comes from the first such
character of the text.
-/
namespace BitTemplate

open Failure

theorem Letter.eq_of_text_eq {a b : Letter} (h : a.text = b.text) : a = b := by
  have hsome := Letter.ofString?_text a
  rw [h, Letter.ofString?_text] at hsome
  exact (Option.some.inj hsome).symm

namespace Base

/-- The cells of a letter all stand for it, and no other character has any of them. -/
theorem Means.mem_field_iff {base : Base} {c : Char} {block : List Cell} (h : base.Means c block)
    (a : Letter) :
    .field a ∈ block ↔ c = a.char ∧ a.char ∉ base.digits := by
  cases h with
  | placeholder =>
    have hdot : '.' ≠ a.char := by
      intro hdot
      exact absurd a.isAlpha (by rw [← hdot]; decide)
    simp [List.mem_replicate, hdot]
  | digit hc hlength hvalue =>
    have hdigit := List.mem_of_getElem? hc
    constructor
    · intro hmem
      simp at hmem
    · intro h
      rw [← h.1] at h
      exact absurd hdigit h.2
  | letter b hb =>
    have hpos : base.bitsPerDigit ≠ 0 := by
      cases base <;> decide
    rw [List.mem_replicate]
    constructor
    · intro hmem
      cases hmem.2
      exact ⟨rfl, hb⟩
    · intro h
      refine ⟨hpos, ?_⟩
      rw [Cell.field.injEq]
      exact Letter.eq_of_text_eq (by rw [Letter.text, Letter.text, h.1])

end Base

namespace Template

open Text

/-- The first mark of a letter comes from the first character that is the letter. -/
theorem origin_of_readMarks {base : Base} {index : Nat} {cs : List Char} {marks : List Mark}
    (h : readMarks base index cs = .ok marks) {a : Letter}
    (ha : Cell.field a ∈ marks.map Mark.cell) :
    a.char ∈ cs ∧ a.char ∉ base.digits ∧
      marks[(marks.map Mark.cell).idxOf (.field a)]?.map Mark.origin =
        some (index + cs.idxOf a.char) := by
  induction cs generalizing index marks with
  | nil =>
    cases h
    simp at ha
  | cons c rest ih =>
    cases hblank : isBlank c with
    | true =>
      rw [readMarks_of_blank index rest hblank] at h
      obtain ⟨hmem, hdigits, horigin⟩ := ih h ha
      have hne : c ≠ a.char := by
        intro heq
        rw [heq, a.not_blank] at hblank
        cases hblank
      refine ⟨List.mem_cons_of_mem c hmem, hdigits, ?_⟩
      rw [horigin, List.idxOf_cons_ne rest hne]
      congr 1
      omega
    | false =>
      by_cases hallowed : base.Allows c
      · obtain ⟨block, hblock⟩ := (base.exists_means_iff c).mpr hallowed
        rw [readMarks_of_means index rest hblank hblock, map_eq_ok_iff] at h
        obtain ⟨later, hlater, rfl⟩ := h
        have hcells : (block.map (fun cell => (⟨cell, index⟩ : Mark)) ++ later).map Mark.cell =
            block ++ later.map Mark.cell := by
          rw [List.map_append, List.map_map]
          exact congrArg (· ++ _) (List.map_id block)
        rw [hcells] at ha ⊢
        by_cases hfield : Cell.field a ∈ block
        · obtain ⟨rfl, hdigits⟩ := (hblock.mem_field_iff a).mp hfield
          have hlt := List.idxOf_lt_length_of_mem hfield
          refine ⟨List.mem_cons_self .., hdigits, ?_⟩
          rw [List.idxOf_append_of_mem hfield, List.getElem?_append_left (by simpa using hlt),
            List.getElem?_map, List.getElem?_eq_getElem hlt, List.idxOf_cons_self]
          rfl
        · have hfuture : Cell.field a ∈ later.map Mark.cell :=
            (List.mem_append.mp ha).resolve_left hfield
          obtain ⟨hmem, hdigits, horigin⟩ := ih hlater hfuture
          have hne : c ≠ a.char := fun heq => hfield ((hblock.mem_field_iff a).mpr ⟨heq, hdigits⟩)
          refine ⟨List.mem_cons_of_mem c hmem, hdigits, ?_⟩
          rw [List.idxOf_append_of_notMem hfield, List.getElem?_append_right (by simp),
            List.length_map, Nat.add_sub_cancel_left, horigin, List.idxOf_cons_ne rest hne]
          congr 1
          omega
      · rw [readMarks_of_not_allows index rest hblank hallowed] at h
        cases h

end Template

namespace Layout

/-- The origin of a letter is the index of the first character that is the letter. -/
theorem origin?_of_parse {l : Layout} {text : String} {base : Base}
    (h : Template.parse text base = .ok l.template) {a : Letter} (ha : a ∈ l.names) :
    a.char ∈ text.toList ∧ l.origin? a = some (text.toList.idxOf a.char) := by
  have hread : Template.readMarks base 0 text.toList = .ok l.template.marks := by
    unfold Template.parse at h
    split at h
    · cases h
    · rename_i marks hmarks
      split at h
      · rw [hmarks, ← Except.ok.inj h]
      · cases h
  rw [names_eq] at ha
  have hcell := (l.template.mem_names a).mp ha
  obtain ⟨hmem, _, horigin⟩ := Template.origin_of_readMarks hread hcell
  have hfield : l.field? a = some (l.template.field a ha) :=
    (find?_eq_some_iff_of_nodup (k := a) l.nodup_names (by simp) _).mpr
      ⟨(l.mem_fields_iff _).mpr ⟨a, ha, rfl⟩, rfl⟩
  have hhead : (l.template.field a ha).positions.head (l.template.field a ha).nonempty =
      l.template.cells.idxOf (.field a) := by
    have hfirst := Template.head?_positionsFrom hcell 0
    rw [Nat.zero_add] at hfirst
    exact Option.some.inj ((List.head?_eq_some_head _).symm.trans hfirst)
  refine ⟨hmem, ?_⟩
  rw [origin?, hfield, Option.map_some, hhead, Template.origin]
  rw [Template.cells, horigin, Nat.zero_add]
  rfl

end Layout

end BitTemplate
