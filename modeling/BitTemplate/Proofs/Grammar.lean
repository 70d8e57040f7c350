import BitTemplate.Value.Reading
import BitTemplate.Proofs.Bits
import BitTemplate.Proofs.Failure
import Mathlib.Tactic.IntervalCases

/-!
The grammar of templates. A base allows the dot, the letters and its own digits, and gives each of
them a meaning in cells. A text is a template exactly if all of its written characters, those that
are not blank, are allowed and their cells make a standard width. The cells then are the meanings
of the written characters in their order, and the origin of a cell is the place of the character
that means it. Otherwise the first written character that is not allowed is reported, and the
width only if there is none.
-/
namespace BitTemplate

namespace Base

/-- The digits of a base in the order of their values. -/
def digits : Base → List Char
  | .binary => ['0', '1']
  | .hexadecimal =>
    ['0', '1', '2', '3', '4', '5', '6', '7', '8', '9', 'A', 'B', 'C', 'D', 'E', 'F']

/-- Whether a character may stand in a template of a base. -/
def Allows (base : Base) (c : Char) : Prop := c = '.' ∨ c.isAlpha = true ∨ c ∈ base.digits

/-- The cells that a character stands for. A letter that is a digit of the base means its value
and no field. -/
inductive Means (base : Base) : Char → List Cell → Prop where
  | placeholder : Means base '.' (List.replicate base.bitsPerDigit .placeholder)
  | digit {c : Char} {value : Nat} {bits : List Bool} (hc : base.digits[value]? = some c)
      (hlength : bits.length = base.bitsPerDigit) (hvalue : Bits.ofDigits bits = value) :
      Means base c (bits.map .literal)
  | letter (a : Letter) (ha : a.char ∉ base.digits) :
      Means base a.char (List.replicate base.bitsPerDigit (.field a))

theorem Means.length_eq {base : Base} {c : Char} {block : List Cell} (h : base.Means c block) :
    block.length = base.bitsPerDigit := by
  cases h with
  | placeholder => exact List.length_replicate
  | digit hc hlength hvalue => rw [List.length_map, hlength]
  | letter a ha => exact List.length_replicate

/-- A character with the value of a digit of the base is that digit. -/
theorem digits_of_digit? {base : Base} {c : Char} {value : Nat} (h : base.digit? c = some value) :
    base.digits[value]? = some c := by
  cases base with
  | binary =>
    unfold digit? at h
    simp only at h
    split_ifs at h with hzero hone
    · cases h
      rw [hzero]
      rfl
    · cases h
      rw [hone]
      rfl
  | hexadecimal =>
    have hcode : (48 ≤ c.toNat ∧ c.toNat ≤ 57 ∧ value = c.toNat - 48) ∨
        (65 ≤ c.toNat ∧ c.toNat ≤ 70 ∧ value = c.toNat - 55) := by
      unfold digit? at h
      simp only at h
      split_ifs at h with hdigit hletter
      · cases h
        simp only [Char.isDigit, Bool.and_eq_true, decide_eq_true_eq,
          UInt32.le_iff_toNat_le] at hdigit
        exact Or.inl ⟨hdigit.1, hdigit.2, rfl⟩
      · cases h
        rw [Char.le_def, Char.le_def, UInt32.le_iff_toNat_le, UInt32.le_iff_toNat_le] at hletter
        exact Or.inr ⟨hletter.1, hletter.2, rfl⟩
    rw [← Char.ofNat_toNat c]
    generalize c.toNat = n at hcode
    rcases hcode with ⟨hlow, hhigh, rfl⟩ | ⟨hlow, hhigh, rfl⟩
    · interval_cases n <;> rfl
    · interval_cases n <;> rfl

theorem digit?_eq_some_iff (base : Base) (c : Char) (value : Nat) :
    base.digit? c = some value ↔ base.digits[value]? = some c := by
  refine ⟨digits_of_digit?, ?_⟩
  intro h
  have hvalue := (List.getElem?_eq_some_iff.mp h).1
  cases base with
  | binary =>
    change value < 2 at hvalue
    interval_cases value <;> cases h <;> rfl
  | hexadecimal =>
    change value < 16 at hvalue
    interval_cases value <;> cases h <;> rfl

theorem digit?_eq_none_iff (base : Base) (c : Char) : base.digit? c = none ↔ c ∉ base.digits := by
  rw [List.mem_iff_getElem?, Option.eq_none_iff_forall_ne_some, not_exists]
  simp only [ne_eq, digit?_eq_some_iff]

theorem length_digits (base : Base) : base.digits.length = 2 ^ base.bitsPerDigit := by
  cases base <;> rfl

/-- The cells of a digit are those that write its value. -/
theorem digitCells_eq_iff {base : Base} {c : Char} {value : Nat}
    (hc : base.digits[value]? = some c) (block : List Cell) :
    base.digitCells value = block ↔ ∃ bits, bits.length = base.bitsPerDigit ∧
      Bits.ofDigits bits = value ∧ block = bits.map .literal := by
  have hvalue : value < 2 ^ base.bitsPerDigit := by
    rw [← length_digits]
    exact (List.getElem?_eq_some_iff.mp hc).1
  constructor
  · intro h
    refine ⟨(List.range base.bitsPerDigit).reverse.map value.testBit, by simp,
      Bits.ofDigits_testBits hvalue, ?_⟩
    rw [← h, List.map_map]
    rfl
  · intro h
    obtain ⟨bits, hlength, hbits, rfl⟩ := h
    rw [Bits.digits_eq_testBits bits, hlength, hbits, List.map_map]
    rfl

/-- A base gives a meaning to the characters that it allows. -/
theorem exists_means_iff (base : Base) (c : Char) :
    (∃ block, base.Means c block) ↔ base.Allows c := by
  constructor
  · intro h
    obtain ⟨block, h⟩ := h
    cases h with
    | placeholder => exact Or.inl rfl
    | digit hc hlength hvalue => exact Or.inr (Or.inr (List.mem_of_getElem? hc))
    | letter a ha => exact Or.inr (Or.inl a.isAlpha)
  · intro h
    by_cases hdigit : c ∈ base.digits
    · obtain ⟨value, hvalue⟩ := List.mem_iff_getElem?.mp hdigit
      obtain ⟨bits, hlength, hbits, _⟩ := (digitCells_eq_iff hvalue _).mp rfl
      exact ⟨_, .digit hvalue hlength hbits⟩
    · rcases h with rfl | halpha | hmem
      · exact ⟨_, .placeholder⟩
      · exact ⟨_, .letter ⟨c, halpha⟩ hdigit⟩
      · exact absurd hmem hdigit

theorem dot_notMem_digits (base : Base) : '.' ∉ base.digits := by
  cases base <;> decide

theorem expand?_eq_some_iff (base : Base) (c : Char) (block : List Cell) :
    base.expand? c = some block ↔ base.Means c block := by
  unfold expand?
  constructor
  · intro h
    split at h
    · rename_i hdot
      cases h
      rw [hdot]
      exact .placeholder
    · split at h
      · rename_i value hvalue
        rw [digit?_eq_some_iff] at hvalue
        obtain ⟨bits, hlength, hbits, rfl⟩ :=
          (digitCells_eq_iff hvalue block).mp (Option.some.inj h)
        exact .digit hvalue hlength hbits
      · rename_i hnone
        rw [digit?_eq_none_iff] at hnone
        obtain ⟨a, ha, rfl⟩ := Option.map_eq_some_iff.mp h
        rw [← Letter.char_of_ofChar? ha] at hnone ⊢
        exact .letter a hnone
  · intro h
    cases h with
    | placeholder => rfl
    | digit hc hlength hvalue =>
      have hdot : c ≠ '.' := by
        intro hdot
        rw [hdot] at hc
        exact base.dot_notMem_digits (List.mem_of_getElem? hc)
      rw [if_neg hdot, (base.digit?_eq_some_iff c _).mpr hc]
      exact congrArg some ((digitCells_eq_iff hc _).mpr ⟨_, hlength, hvalue, rfl⟩)
    | letter a ha =>
      have hdot : a.char ≠ '.' := by
        intro hdot
        have halpha := a.isAlpha
        rw [hdot] at halpha
        exact absurd halpha (by decide)
      rw [if_neg hdot, (base.digit?_eq_none_iff a.char).mpr ha, Letter.ofChar?_char]
      rfl

theorem expand?_eq_none_iff (base : Base) (c : Char) :
    base.expand? c = none ↔ ¬ base.Allows c := by
  rw [← exists_means_iff, Option.eq_none_iff_forall_ne_some, not_exists]
  simp only [ne_eq, expand?_eq_some_iff]

end Base

namespace Text

/-- The written characters of a text: those that are not blank. -/
def written (cs : List Char) : List Char := cs.filter fun c => !isBlank c

theorem mem_written_iff (cs : List Char) (c : Char) :
    c ∈ written cs ↔ c ∈ cs ∧ isBlank c = false := by
  simp [written]

/-- The written characters with their indices, the first character of the text having the given
one. -/
def places (index : Nat) (cs : List Char) : List (Char × Nat) :=
  (cs.zipIdx index).filter fun entry => !isBlank entry.1

theorem places_of_blank {c : Char} (h : isBlank c = true) (index : Nat) (rest : List Char) :
    places index (c :: rest) = places (index + 1) rest := by
  simp [places, h]

theorem places_of_not_blank {c : Char} (h : isBlank c = false) (index : Nat) (rest : List Char) :
    places index (c :: rest) = (c, index) :: places (index + 1) rest := by
  simp [places, h]

theorem written_of_blank {c : Char} (h : isBlank c = true) (rest : List Char) :
    written (c :: rest) = written rest := by
  simp [written, h]

theorem written_of_not_blank {c : Char} (h : isBlank c = false) (rest : List Char) :
    written (c :: rest) = c :: written rest := by
  simp [written, h]

theorem map_fst_places (index : Nat) (cs : List Char) :
    (places index cs).map Prod.fst = written cs := by
  induction cs generalizing index with
  | nil => rfl
  | cons c rest ih =>
    cases h : isBlank c with
    | true => rw [places_of_blank h, written_of_blank h, ih]
    | false => rw [places_of_not_blank h, written_of_not_blank h, List.map_cons, ih]

/-- A written character stands at its index, after all that were written before it. -/
theorem getElem?_places {index : Nat} {cs : List Char} {k : Nat} {c : Char} {j : Nat}
    (h : (places index cs)[k]? = some (c, j)) :
    ∃ i, j = index + i ∧ cs[i]? = some c ∧ isBlank c = false ∧
      (written (cs.take i)).length = k := by
  induction cs generalizing index k with
  | nil => simp [places] at h
  | cons c' rest ih =>
    cases hblank : isBlank c' with
    | true =>
      rw [places_of_blank hblank] at h
      obtain ⟨i, hj, hi, hc, hcount⟩ := ih h
      refine ⟨i + 1, by omega, hi, hc, ?_⟩
      rw [List.take_succ_cons, written_of_blank hblank, hcount]
    | false =>
      rw [places_of_not_blank hblank] at h
      cases k with
      | zero =>
        cases h
        exact ⟨0, rfl, rfl, hblank, rfl⟩
      | succ k =>
        obtain ⟨i, hj, hi, hc, hcount⟩ := ih h
        refine ⟨i + 1, by omega, hi, hc, ?_⟩
        rw [List.take_succ_cons, written_of_not_blank hblank, List.length_cons, hcount]

/-- A written character stands no earlier than any index with no more characters before it. -/
theorem le_of_written {cs : List Char} {i j : Nat} {c : Char} (hj : cs[j]? = some c)
    (hc : isBlank c = false)
    (h : (written (cs.take i)).length ≤ (written (cs.take j)).length) : i ≤ j := by
  by_contra hlt
  have hnext : written (cs.take (j + 1)) = written (cs.take j) ++ [c] := by
    rw [List.take_add_one, hj, written, List.filter_append]
    simp [written, hc]
  have hmore : (written (cs.take (j + 1))).length ≤ (written (cs.take i)).length := by
    apply List.Sublist.length_le
    exact (List.take_sublist_take_left (by omega)).filter _
  rw [hnext, List.length_append, List.length_singleton] at hmore
  omega

end Text

/-- In a list of equally long blocks, the item at an index is found by division. -/
theorem getElem?_flatten {α : Type} {size : Nat} {blocks : List (List α)} (hsize : 0 < size)
    (h : ∀ block ∈ blocks, block.length = size) (i : Nat) :
    blocks.flatten[i]? = blocks[i / size]?.bind fun block => block[i % size]? := by
  induction blocks generalizing i with
  | nil => simp
  | cons block rest ih =>
    rw [List.forall_mem_cons] at h
    rw [List.flatten_cons]
    by_cases hi : i < size
    · rw [List.getElem?_append_left (by omega), Nat.div_eq_of_lt hi, Nat.mod_eq_of_lt hi]
      rfl
    · have hdiv : i / size = (i - size) / size + 1 := Nat.div_eq_sub_div hsize (by omega)
      have hmod : i % size = (i - size) % size := Nat.mod_eq_sub_mod (by omega)
      rw [List.getElem?_append_right (by omega), h.1, ih h.2, hdiv, hmod, List.getElem?_cons_succ]

namespace Template

open Failure Text

/-- The marks of one written character: its meaning, with its index at every cell. -/
structure Reads (base : Base) (entry : Char × Nat) (block : List Mark) : Prop where
  means : base.Means entry.1 (block.map Mark.cell)
  origin : ∀ mark ∈ block, mark.origin = entry.2

section Step

variable {base : Base} {c : Char} (index : Nat) (rest : List Char)

theorem readMarks_of_blank (h : isBlank c = true) :
    readMarks base index (c :: rest) = readMarks base (index + 1) rest := by
  rw [readMarks, if_pos h]

theorem readMarks_of_means {block : List Cell} (h : isBlank c = false)
    (hc : base.Means c block) :
    readMarks base index (c :: rest) = (readMarks base (index + 1) rest).map fun marks =>
      block.map (fun cell => ⟨cell, index⟩) ++ marks := by
  rw [readMarks, if_neg (by simp [h]), (base.expand?_eq_some_iff c block).mpr hc]
  cases readMarks base (index + 1) rest <;> rfl

theorem readMarks_of_not_allows (h : isBlank c = false) (hc : ¬ base.Allows c) :
    readMarks base index (c :: rest) = .error (c, index) := by
  rw [readMarks, if_neg (by simp [h]), (base.expand?_eq_none_iff c).mpr hc]

end Step

/-- What was read are the marks of the written characters, one block after another. -/
theorem blocks_of_readMarks {base : Base} {index : Nat} {cs : List Char} {marks : List Mark}
    (h : readMarks base index cs = .ok marks) :
    ∃ blocks, List.Forall₂ (Reads base) (places index cs) blocks ∧ marks = blocks.flatten := by
  induction cs generalizing index marks with
  | nil =>
    cases h
    exact ⟨[], List.Forall₂.nil, rfl⟩
  | cons c rest ih =>
    cases hblank : isBlank c with
    | true =>
      rw [readMarks_of_blank index rest hblank] at h
      rw [places_of_blank hblank]
      exact ih h
    | false =>
      rw [places_of_not_blank hblank]
      by_cases hc : base.Allows c
      · obtain ⟨block, hblock⟩ := (base.exists_means_iff c).mpr hc
        rw [readMarks_of_means index rest hblank hblock, map_eq_ok_iff] at h
        obtain ⟨later, hlater, rfl⟩ := h
        obtain ⟨blocks, hblocks, rfl⟩ := ih hlater
        refine ⟨block.map (fun cell => ⟨cell, index⟩) :: blocks, .cons ⟨?_, ?_⟩ hblocks, rfl⟩
        · rw [List.map_map]
          simpa [Function.comp_def] using hblock
        · simp
      · rw [readMarks_of_not_allows index rest hblank hc] at h
        cases h

/-- Reading fails at the first written character that is not allowed. -/
theorem readMarks_eq_error_iff (base : Base) (index : Nat) (cs : List Char) (c : Char) (j : Nat) :
    readMarks base index cs = .error (c, j) ↔ ∃ before after, cs = before ++ c :: after ∧
      (∀ c' ∈ written before, base.Allows c') ∧ isBlank c = false ∧ ¬ base.Allows c ∧
      j = index + before.length := by
  constructor
  · intro h
    induction cs generalizing index with
    | nil => cases h
    | cons c' rest ih =>
      cases hblank : isBlank c' with
      | true =>
        rw [readMarks_of_blank index rest hblank] at h
        obtain ⟨before, after, rfl, hbefore, hc, hnot, hj⟩ := ih (index + 1) h
        refine ⟨c' :: before, after, rfl, ?_, hc, hnot, by rw [List.length_cons]; omega⟩
        rwa [written_of_blank hblank]
      | false =>
        by_cases hc' : base.Allows c'
        · obtain ⟨block, hblock⟩ := (base.exists_means_iff c').mpr hc'
          rw [readMarks_of_means index rest hblank hblock, map_eq_error_iff] at h
          obtain ⟨before, after, rfl, hbefore, hc, hnot, hj⟩ := ih (index + 1) h
          refine ⟨c' :: before, after, rfl, ?_, hc, hnot, by rw [List.length_cons]; omega⟩
          rw [written_of_not_blank hblank, List.forall_mem_cons]
          exact ⟨hc', hbefore⟩
        · rw [readMarks_of_not_allows index rest hblank hc'] at h
          cases h
          exact ⟨[], rest, rfl, by simp [written], hblank, hc', rfl⟩
  · intro h
    obtain ⟨before, after, rfl, hbefore, hc, hnot, rfl⟩ := h
    induction before generalizing index with
    | nil => exact readMarks_of_not_allows index after hc hnot
    | cons c' before ih =>
      have hlater : index + (c' :: before).length = index + 1 + before.length := by
        rw [List.length_cons]
        omega
      rw [List.cons_append, hlater]
      cases hblank : isBlank c' with
      | true =>
        rw [written_of_blank hblank] at hbefore
        rw [readMarks_of_blank index _ hblank, ih (index + 1) hbefore]
      | false =>
        rw [written_of_not_blank hblank, List.forall_mem_cons] at hbefore
        obtain ⟨block, hblock⟩ := (base.exists_means_iff c').mpr hbefore.1
        rw [readMarks_of_means index _ hblank hblock, ih (index + 1) hbefore.2, map_error]

theorem exists_readMarks_iff (base : Base) (index : Nat) (cs : List Char) :
    (∃ marks, readMarks base index cs = .ok marks) ↔ ∀ c ∈ written cs, base.Allows c := by
  constructor
  · intro h c hc
    obtain ⟨marks, hmarks⟩ := h
    obtain ⟨blocks, hblocks, _⟩ := blocks_of_readMarks hmarks
    have hallowed : List.Forall₂ (fun entry block => base.Allows entry.1 ∧ Reads base entry block)
        (places index cs) blocks :=
      hblocks.imp fun entry block hblock => ⟨(base.exists_means_iff _).mp ⟨_, hblock.means⟩, hblock⟩
    rw [← map_fst_places index cs] at hc
    obtain ⟨entry, hentry, rfl⟩ := List.mem_map.mp hc
    exact ((List.forall₂_and_left _ _).mp hallowed).1 entry hentry
  · intro h
    cases hread : readMarks base index cs with
    | ok marks => exact ⟨marks, rfl⟩
    | error e =>
      obtain ⟨c, j⟩ := e
      obtain ⟨before, after, rfl, _, hc, hnot, _⟩ :=
        (readMarks_eq_error_iff base index cs c j).mp hread
      exact absurd (h c ((mem_written_iff _ c).mpr ⟨by simp, hc⟩)) hnot

theorem length_of_reads {base : Base} {entries : List (Char × Nat)} {blocks : List (List Mark)}
    (h : List.Forall₂ (Reads base) entries blocks) :
    ∀ block ∈ blocks, block.length = base.bitsPerDigit := by
  induction h with
  | nil => simp
  | cons hblock _ ih =>
    rw [List.forall_mem_cons]
    exact ⟨by rw [← hblock.means.length_eq, List.length_map], ih⟩

theorem length_of_readMarks {base : Base} {index : Nat} {cs : List Char} {marks : List Mark}
    (h : readMarks base index cs = .ok marks) :
    marks.length = (written cs).length * base.bitsPerDigit := by
  obtain ⟨blocks, hblocks, rfl⟩ := blocks_of_readMarks h
  rw [List.length_flatten, List.map_congr_left (length_of_reads hblocks), List.map_const',
    List.sum_replicate_nat, ← hblocks.length_eq, ← map_fst_places index cs,
    List.length_map]

/-- How a template spells its text. Its cells are the meanings of the written characters, one
block after another, and every cell comes from the character that means its block. -/
structure Spells (t : Template) (blocks : List (List Cell)) : Prop where
  means : List.Forall₂ t.base.Means (written t.text.toList) blocks
  cells_eq : t.cells = blocks.flatten
  origin_mono : ∀ i j, i ≤ j → j < t.width → t.origin i ≤ t.origin j
  origin_block : ∀ i < t.width, ∃ c block,
    t.text.toList[t.origin i]? = some c ∧ isBlank c = false ∧
    (written (t.text.toList.take (t.origin i))).length = i / t.base.bitsPerDigit ∧
    blocks[i / t.base.bitsPerDigit]? = some block ∧ t.base.Means c block ∧
    t.cells[i]? = block[i % t.base.bitsPerDigit]?

theorem exists_entry {base : Base} {entries : List (Char × Nat)} {blocks : List (List Mark)}
    (h : List.Forall₂ (Reads base) entries blocks) {k : Nat} {block : List Mark}
    (hblock : blocks[k]? = some block) :
    ∃ entry, entries[k]? = some entry ∧ Reads base entry block := by
  induction h generalizing k with
  | nil => simp at hblock
  | @cons entry first entries blocks hfirst _ ih =>
    cases k with
    | zero =>
      cases hblock
      exact ⟨entry, rfl, hfirst⟩
    | succ k => exact ih hblock

/-- Every cell of a template that was read belongs to the block of a written character. -/
theorem exists_place {t : Template} {read : List (List Mark)}
    (hread : List.Forall₂ (Reads t.base) (places 0 t.text.toList) read)
    (hmarks : t.marks = read.flatten) {i : Nat} (hi : i < t.width) :
    ∃ c block, t.text.toList[t.origin i]? = some c ∧ isBlank c = false ∧
      (written (t.text.toList.take (t.origin i))).length = i / t.base.bitsPerDigit ∧
      read[i / t.base.bitsPerDigit]? = some block ∧ t.base.Means c (block.map Mark.cell) ∧
      t.marks[i]? = block[i % t.base.bitsPerDigit]? := by
  have hpos : 0 < t.base.bitsPerDigit := by
    cases t.base <;> decide
  have hfound := getElem?_flatten hpos (length_of_reads hread) i
  obtain ⟨mark, hmark⟩ : ∃ mark, t.marks[i]? = some mark := ⟨_, List.getElem?_eq_getElem hi⟩
  rw [← hmarks, hmark] at hfound
  obtain ⟨block, hblock, hcell⟩ := Option.bind_eq_some_iff.mp hfound.symm
  obtain ⟨⟨c, j⟩, hentry, hreads⟩ := exists_entry hread hblock
  obtain ⟨k, hj, hc, hblank, hbefore⟩ := getElem?_places hentry
  have horigin : t.origin i = k := by
    have hj' := hreads.origin mark (List.mem_of_getElem? hcell)
    rw [origin, hmark, Option.map_some, Option.getD_some, hj', hj, Nat.zero_add]
  rw [horigin]
  exact ⟨c, block, hc, hblank, hbefore, hblock, hreads.means, by rw [hmark, hcell]⟩

/-- A template that was read from its text spells it. -/
theorem spells_of_readMarks {t : Template}
    (h : readMarks t.base 0 t.text.toList = .ok t.marks) : ∃ blocks, t.Spells blocks := by
  obtain ⟨read, hread, hmarks⟩ := blocks_of_readMarks h
  refine ⟨read.map fun block => block.map Mark.cell, ?_, ?_, ?_, ?_⟩
  · rw [← map_fst_places 0, List.forall₂_map_left_iff, List.forall₂_map_right_iff]
    exact hread.imp fun entry block hblock => hblock.means
  · rw [cells, hmarks, List.map_flatten]
  · intro i j hij hj
    obtain ⟨_, _, _, _, hbefore, _⟩ := exists_place hread hmarks (hij.trans_lt hj)
    obtain ⟨c, _, hc, hblank, hbefore', _⟩ := exists_place hread hmarks hj
    apply le_of_written hc hblank
    rw [hbefore, hbefore']
    exact Nat.div_le_div_right hij
  · intro i hi
    obtain ⟨c, block, hc, hblank, hbefore, hblock, hmeans, hmark⟩ := exists_place hread hmarks hi
    refine ⟨c, block.map Mark.cell, hc, hblank, hbefore, ?_, hmeans, ?_⟩
    · rw [List.getElem?_map, hblock]
      rfl
    · rw [cells, List.getElem?_map, hmark, List.getElem?_map]

section OfText

variable {text : String} {base : Base}

theorem ofText_of_invalid {c : Char} {j : Nat}
    (h : readMarks base 0 text.toList = .error (c, j)) :
    ofText (.text text) (.base base) =
      .error (.diagnostic ⟨.invalidCharacter c base, text, some j⟩) := by
  change (parse text base).mapError Error.diagnostic = _
  rw [parse, h]
  rfl

theorem ofText_of_readMarks {marks : List Mark} (h : readMarks base 0 text.toList = .ok marks) :
    ofText (.text text) (.base base) =
      if hwidth : marks.length ∈ standardWidths then .ok ⟨text, base, marks, hwidth⟩
      else .error (.diagnostic ⟨.wrongWidth marks.length, text, none⟩) := by
  change (parse text base).mapError Error.diagnostic = _
  rw [parse, h]
  simp only
  split <;> rfl

/-- A text is a template if its characters are allowed and make a standard width. -/
theorem exists_ofText_iff : (∃ t, ofText (.text text) (.base base) = .ok t) ↔
    (∀ c ∈ written text.toList, base.Allows c) ∧
      (written text.toList).length * base.bitsPerDigit ∈ standardWidths := by
  rw [← exists_readMarks_iff base 0]
  constructor
  · intro h
    obtain ⟨t, ht⟩ := h
    cases hread : readMarks base 0 text.toList with
    | error e =>
      rw [ofText_of_invalid hread] at ht
      cases ht
    | ok marks =>
      rw [ofText_of_readMarks hread] at ht
      split at ht
      · rename_i hwidth
        rw [length_of_readMarks hread] at hwidth
        exact ⟨⟨marks, rfl⟩, hwidth⟩
      · cases ht
  · intro h
    obtain ⟨⟨marks, hread⟩, hwidth⟩ := h
    rw [← length_of_readMarks hread] at hwidth
    exact ⟨_, (ofText_of_readMarks hread).trans (dif_pos hwidth)⟩

theorem spells_of_ofText {t : Template} (h : ofText (.text text) (.base base) = .ok t) :
    t.text = text ∧ t.base = base ∧ ∃ blocks, t.Spells blocks := by
  cases hread : readMarks base 0 text.toList with
  | error e =>
    rw [ofText_of_invalid hread] at h
    cases h
  | ok marks =>
    rw [ofText_of_readMarks hread] at h
    split at h
    · cases h
      exact ⟨rfl, rfl, spells_of_readMarks hread⟩
    · cases h

/-- The width is reported only if all characters are allowed. -/
theorem ofText_eq_error_iff (e : Error) : ofText (.text text) (.base base) = .error e ↔
    (∃ before c after, text.toList = before ++ c :: after ∧
      (∀ c' ∈ written before, base.Allows c') ∧ isBlank c = false ∧ ¬ base.Allows c ∧
      e = .diagnostic ⟨.invalidCharacter c base, text, some before.length⟩) ∨
    ((∀ c ∈ written text.toList, base.Allows c) ∧
      (written text.toList).length * base.bitsPerDigit ∉ standardWidths ∧
      e = .diagnostic
        ⟨.wrongWidth ((written text.toList).length * base.bitsPerDigit), text, none⟩) := by
  constructor
  · intro h
    cases hread : readMarks base 0 text.toList with
    | error fault =>
      obtain ⟨c, j⟩ := fault
      rw [ofText_of_invalid hread] at h
      cases h
      obtain ⟨before, after, hsplit, hbefore, hblank, hc, hj⟩ :=
        (readMarks_eq_error_iff base 0 _ c j).mp hread
      rw [Nat.zero_add] at hj
      exact Or.inl ⟨before, c, after, hsplit, hbefore, hblank, hc, by rw [hj]⟩
    | ok marks =>
      rw [ofText_of_readMarks hread] at h
      rw [← length_of_readMarks hread]
      split at h
      · cases h
      · rename_i hwidth
        cases h
        exact Or.inr ⟨(exists_readMarks_iff base 0 _).mp ⟨marks, hread⟩, hwidth, rfl⟩
  · intro h
    rcases h with ⟨before, c, after, hsplit, hbefore, hblank, hc, rfl⟩ | ⟨hallowed, hwidth, rfl⟩
    · apply ofText_of_invalid
      exact (readMarks_eq_error_iff base 0 _ c _).mpr
        ⟨before, after, hsplit, hbefore, hblank, hc, (Nat.zero_add _).symm⟩
    · obtain ⟨marks, hread⟩ := (exists_readMarks_iff base 0 _).mpr hallowed
      rw [← length_of_readMarks hread] at hwidth ⊢
      exact (ofText_of_readMarks hread).trans (dif_neg hwidth)

end OfText

/-- A text is read as a template exactly if it follows the grammar. The template then spells the
text, and otherwise the first character that is not allowed is to blame, or else the width. -/
theorem ofText_grammar (text : String) (base : Base) :
    ((∃ t, ofText (.text text) (.base base) = .ok t) ↔
      (∀ c ∈ written text.toList, base.Allows c) ∧
      (written text.toList).length * base.bitsPerDigit ∈ standardWidths) ∧
    (∀ t, ofText (.text text) (.base base) = .ok t →
      t.text = text ∧ t.base = base ∧ ∃ blocks, t.Spells blocks) ∧
    ∀ e, ofText (.text text) (.base base) = .error e ↔
      (∃ before c after, text.toList = before ++ c :: after ∧
        (∀ c' ∈ written before, base.Allows c') ∧ isBlank c = false ∧ ¬ base.Allows c ∧
        e = .diagnostic ⟨.invalidCharacter c base, text, some before.length⟩) ∨
      ((∀ c ∈ written text.toList, base.Allows c) ∧
        (written text.toList).length * base.bitsPerDigit ∉ standardWidths ∧
        e = .diagnostic
          ⟨.wrongWidth ((written text.toList).length * base.bitsPerDigit), text, none⟩) :=
  ⟨exists_ofText_iff, fun _ => spells_of_ofText, ofText_eq_error_iff⟩

/-- Four characters are a template in base sixteen. In base two the last of them is to blame, and
not the width. -/
theorem ofText_grammar_four_digits :
    (∃ t blocks, ofText (.text "F. a6") (.base .hexadecimal) = .ok t ∧ t.Spells blocks ∧
      t.cellText = "1111....aaaa0110" ∧ t.origin 11 = 3) ∧
    ofText (.text "F. a6") (.base .binary) =
      .error (.diagnostic ⟨.invalidCharacter '6' .binary, "F. a6", some 4⟩) := by
  constructor
  · have heval : (ofText (.text "F. a6") (.base .hexadecimal)).map (fun t =>
        (t.cellText, t.origin 11)) = .ok ("1111....aaaa0110", 3) := by rfl
    rw [map_eq_ok_iff] at heval
    obtain ⟨t, ht, hshown⟩ := heval
    obtain ⟨_, _, blocks, hblocks⟩ := (ofText_grammar "F. a6" .hexadecimal).2.1 t ht
    exact ⟨t, blocks, ht, hblocks, Prod.mk.inj hshown⟩
  · refine ((ofText_grammar "F. a6" .binary).2.2 _).mpr (Or.inl
      ⟨['F', '.', ' ', 'a'], '6', [], rfl, ?_, rfl, ?_, rfl⟩)
    · have hwritten : written ['F', '.', ' ', 'a'] = ['F', '.', 'a'] := by decide
      have hletters : 'F'.isAlpha = true ∧ 'a'.isAlpha = true := ⟨rfl, rfl⟩
      rw [hwritten]
      simp [Base.Allows, hletters]
    · unfold Base.Allows
      decide

end Template

end BitTemplate
