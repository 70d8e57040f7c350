import BitTemplate.Proofs.Legibility
import BitTemplate.Proofs.Origins
import BitTemplate.Proofs.Session

/-!
What a diagnostic of a single template points at. The character at its index is the first of the
text that is at fault: the first one that may not stand there, the first placeholder, the first
digit, or the first occurrence of a letter. Only a wrong width has no such character. The message
shows the character above its caret.
-/
namespace BitTemplate

open Failure

/-- The text of a template argument. -/
def Value.templateText? : Value → Option String
  | .text s => some s
  | .template t => some t.text
  | _ => Option.none

/-- The first character of a text with a property stands at an index. -/
structure Text.FirstAt (P : Char → Prop) (text : String) (i : Nat) (c : Char) : Prop where
  at_index : text.toList[i]? = some c
  holds : P c
  first : ∀ (j : Nat) (c' : Char), j < i → text.toList[j]? = some c' → ¬ P c'

theorem Text.firstAt_of_split {P : Char → Prop} {text : String} {before after : List Char}
    {c : Char} (h : text.toList = before ++ c :: after) (hc : P c)
    (hbefore : ∀ c' ∈ before, ¬ P c') : FirstAt P text before.length c := by
  refine ⟨by simp [h], hc, ?_⟩
  intro j c' hj hc'
  rw [h, List.getElem?_append_left hj] at hc'
  exact hbefore c' (List.mem_of_getElem? hc')

namespace Fault

/-- The characters that a fault is about, in a template of a base. -/
def Blames (base : Base) : Fault → Char → Prop
  | .invalidCharacter _ _, c => Text.isBlank c = false ∧ ¬ base.Allows c
  | .wrongWidth _, _ => False
  | .placeholder _ _, c => c = '.'
  | .literal _ _ _, c => c ∈ base.digits
  | .duplicateField a _ _, c => c = a.char
  | .unproducedField a, c => c = a.char
  | .unboundField a, c => c = a.char

/-- Whether a fault is one of a text by itself. -/
def isSpelling : Fault → Bool
  | .invalidCharacter _ _ => true
  | .wrongWidth _ => true
  | _ => false

/-- A sentence names a character if it quotes it. -/
def Names (fault : Fault) (c : Char) : Prop :=
  ∃ before after, fault.sentence = before ++ Text.quote (String.ofList [c]) ++ after

end Fault

namespace Diagnostic

/-- A diagnostic without an index is about the width. With an index, it names the character there,
which is the first that it blames. -/
structure Pointed (base : Base) (d : Diagnostic) : Prop where
  index_eq_none_iff : d.index = none ↔ ∃ bits, d.fault = .wrongWidth bits
  first : ∀ i, d.index = some i → ∃ c, Text.FirstAt (d.fault.Blames base) d.text i c ∧
    d.fault.Names c
  clean : d.fault.Clean

end Diagnostic

namespace Template

open Text Diagnostic

/-- The first mark of a kind comes from the first character that has cells of the kind. -/
theorem split_of_find?_readMarks {base : Base} {kind : Cell → Bool} {P : Char → Prop}
    (hmeans : ∀ c block, base.Means c block → ((∃ cell ∈ block, kind cell = true) ↔ P c))
    (hblanks : ∀ c, isBlank c = true → ¬ P c) {index : Nat} {cs : List Char} {marks : List Mark}
    (h : readMarks base index cs = .ok marks) {mark : Mark}
    (hmark : marks.find? (fun mark => kind mark.cell) = some mark) :
    ∃ before c after, cs = before ++ c :: after ∧ (∀ c' ∈ before, ¬ P c') ∧ P c ∧
      mark.origin = index + before.length := by
  induction cs generalizing index marks with
  | nil =>
    cases h
    cases hmark
  | cons c rest ih =>
    -- A character without cells of the kind only moves the split.
    have hskip {later : List Mark} (hlater : readMarks base (index + 1) rest = .ok later)
        (hfind : later.find? (fun mark => kind mark.cell) = some mark) (hc : ¬ P c) :
        ∃ before c' after, c :: rest = before ++ c' :: after ∧ (∀ c'' ∈ before, ¬ P c'') ∧ P c' ∧
          mark.origin = index + before.length := by
      obtain ⟨before, c', after, rfl, hbefore, hc', horigin⟩ := ih hlater hfind
      refine ⟨c :: before, c', after, rfl, ?_, hc', ?_⟩
      · exact List.forall_mem_cons.mpr ⟨hc, hbefore⟩
      · rw [horigin, List.length_cons]
        omega
    cases hblank : isBlank c with
    | true =>
      rw [readMarks_of_blank index rest hblank] at h
      exact hskip h hmark (hblanks c hblank)
    | false =>
      by_cases hallowed : base.Allows c
      · obtain ⟨block, hblock⟩ := (base.exists_means_iff c).mpr hallowed
        rw [readMarks_of_means index rest hblank hblock, map_eq_ok_iff] at h
        obtain ⟨later, hlater, rfl⟩ := h
        rw [List.find?_append] at hmark
        by_cases hc : P c
        · obtain ⟨cell, hcell, hkind⟩ := (hmeans c block hblock).mpr hc
          obtain ⟨found, hfound⟩ : ∃ found, (block.map fun cell => (⟨cell, index⟩ : Mark)).find?
              (fun mark => kind mark.cell) = some found := by
            rw [← Option.isSome_iff_exists, List.find?_isSome]
            exact ⟨⟨cell, index⟩, List.mem_map_of_mem hcell, hkind⟩
          rw [hfound, Option.some_or, Option.some.injEq] at hmark
          obtain ⟨cell', _, hcell'⟩ := List.mem_map.mp (List.mem_of_find?_eq_some hfound)
          refine ⟨[], c, rest, rfl, by simp, hc, ?_⟩
          rw [← hmark, ← hcell']
          rfl
        · have hnone : (block.map fun cell => (⟨cell, index⟩ : Mark)).find?
              (fun mark => kind mark.cell) = none := by
            rw [List.find?_eq_none]
            intro m hm hkind
            obtain ⟨cell, hcell, rfl⟩ := List.mem_map.mp hm
            exact hc ((hmeans c block hblock).mp ⟨cell, hcell, hkind⟩)
          rw [hnone, Option.none_or] at hmark
          exact hskip hlater hmark hc
      · rw [readMarks_of_not_allows index rest hblank hallowed] at h
        cases h

end Template

namespace Base

variable {base : Base} {c : Char} {block : List Cell}

theorem bitsPerDigit_ne_zero (base : Base) : base.bitsPerDigit ≠ 0 := by
  cases base <;> decide

theorem Means.exists_placeholder_iff (h : base.Means c block) :
    (∃ cell ∈ block, cell.isPlaceholder = true) ↔ c = '.' := by
  cases h with
  | placeholder =>
    exact iff_of_true ⟨.placeholder, List.mem_replicate.mpr ⟨base.bitsPerDigit_ne_zero, rfl⟩, rfl⟩
      rfl
  | digit hc hlength hvalue =>
    have hdot : c ≠ '.' := by
      rintro rfl
      exact base.dot_notMem_digits (List.mem_of_getElem? hc)
    refine iff_of_false ?_ hdot
    rintro ⟨cell, hcell, hkind⟩
    obtain ⟨bit, _, rfl⟩ := List.mem_map.mp hcell
    cases hkind
  | letter a ha =>
    have hdot : a.char ≠ '.' := by
      intro hdot
      exact absurd a.isAlpha (by rw [hdot]; decide)
    refine iff_of_false ?_ hdot
    rintro ⟨cell, hcell, hkind⟩
    rw [List.eq_of_mem_replicate hcell] at hkind
    cases hkind

theorem Means.exists_literal_iff (h : base.Means c block) :
    (∃ cell ∈ block, cell.isLiteral = true) ↔ c ∈ base.digits := by
  cases h with
  | placeholder =>
    refine iff_of_false ?_ base.dot_notMem_digits
    rintro ⟨cell, hcell, hkind⟩
    rw [List.eq_of_mem_replicate hcell] at hkind
    cases hkind
  | @digit _ value bits hc hlength hvalue =>
    have hbits : bits ≠ [] := by
      rintro rfl
      exact base.bitsPerDigit_ne_zero hlength.symm
    obtain ⟨bit, hbit⟩ := List.exists_mem_of_ne_nil bits hbits
    exact iff_of_true ⟨.literal bit, List.mem_map_of_mem hbit, rfl⟩ (List.mem_of_getElem? hc)
  | letter a ha =>
    refine iff_of_false ?_ ha
    rintro ⟨cell, hcell, hkind⟩
    rw [List.eq_of_mem_replicate hcell] at hkind
    cases hkind

theorem not_blank_of_mem_digits (hc : c ∈ base.digits) : Text.isBlank c = false := by
  cases base with
  | binary =>
    simp only [digits, List.mem_cons, List.not_mem_nil, or_false] at hc
    rcases hc with rfl | rfl <;> rfl
  | hexadecimal =>
    simp only [digits, List.mem_cons, List.not_mem_nil, or_false] at hc
    rcases hc with rfl | rfl | rfl | rfl | rfl | rfl | rfl | rfl | rfl | rfl | rfl | rfl | rfl |
      rfl | rfl | rfl <;> rfl

end Base

namespace Fault

/-- The letter that a fault is about. -/
def letter? : Fault → Option Letter
  | .duplicateField a _ _ => some a
  | .unproducedField a => some a
  | .unboundField a => some a
  | _ => none

theorem of_letter? {fault : Fault} {a : Letter} (h : fault.letter? = some a) :
    (∀ base c, fault.Blames base c ↔ c = a.char) ∧ fault.Names a.char ∧ fault.Clean ∧
      ∀ bits, fault ≠ .wrongWidth bits := by
  cases fault with
  | duplicateField b first second =>
    cases h
    refine ⟨fun _ _ => Iff.rfl, ⟨"Field ", " is produced by input template #" ++
      Text.decimalNat first ++ " and input template #" ++ Text.decimalNat second, ?_⟩, trivial,
      nofun⟩
    unfold sentence
    simp only [String.append_assoc]
    rfl
  | unproducedField b =>
    cases h
    exact ⟨fun _ _ => Iff.rfl, ⟨"Field ", " is not produced by any input template", rfl⟩, trivial,
      nofun⟩
  | unboundField b =>
    cases h
    refine ⟨fun _ _ => Iff.rfl, ⟨"No value was provided for field ", "", ?_⟩, trivial, nofun⟩
    unfold sentence
    rw [String.append_empty]
    rfl
  | _ => cases h

theorem not_blank_of_blames {fault : Fault} {base : Base} {c : Char}
    (h : fault.Blames base c) : Text.isBlank c = false := by
  cases fault with
  | invalidCharacter _ _ => exact h.1
  | wrongWidth _ => cases h
  | placeholder _ _ =>
    cases h
    rfl
  | literal _ _ _ => exact Base.not_blank_of_mem_digits h
  | duplicateField a _ _ =>
    cases h
    exact a.not_blank
  | unproducedField a =>
    cases h
    exact a.not_blank
  | unboundField a =>
    cases h
    exact a.not_blank

end Fault

namespace Template

open Text Diagnostic

theorem readMarks_of_faithful {t : Template} (h : (Value.template t).Faithful) :
    readMarks t.base 0 t.text.toList = .ok t.marks := by
  have hparse : parse t.text t.base = .ok t := (mapError_eq_ok_iff _ _ _).mp h
  unfold parse at hparse
  split at hparse
  · cases hparse
  · rename_i marks hmarks
    split at hparse
    · rw [hmarks, ← congrArg Template.marks (Except.ok.inj hparse)]
    · cases hparse

/-- A text that is no template is reported at its first invalid character, or for its width. -/
theorem pointed_parse {text : String} {base : Base} {d : Diagnostic}
    (h : parse text base = .error d) :
    d.text = text ∧ d.Pointed base ∧ d.fault.isSpelling = true := by
  unfold parse at h
  cases hread : readMarks base 0 text.toList with
  | error fault =>
    obtain ⟨c, j⟩ := fault
    rw [hread] at h
    cases h
    obtain ⟨before, after, hsplit, hbefore, hblank, hc, hj⟩ :=
      (readMarks_eq_error_iff base 0 _ c j).mp hread
    rw [Nat.zero_add] at hj
    subst hj
    refine ⟨rfl, ⟨iff_of_false ?_ ?_, ?_, hblank⟩, rfl⟩
    · intro hindex
      cases hindex
    · rintro ⟨bits, hbits⟩
      cases hbits
    intro i hi
    cases hi
    refine ⟨c, firstAt_of_split hsplit ⟨hblank, hc⟩ ?_, "Invalid character ",
      " in " ++ base.adjective ++ " template", ?_⟩
    · intro c' hc' hblamed
      exact hblamed.2 (hbefore c' ((mem_written_iff before c').mpr ⟨hc', hblamed.1⟩))
    · unfold Fault.sentence
      simp only [String.append_assoc]
  | ok marks =>
    rw [hread] at h
    simp only at h
    split at h
    · cases h
    · cases h
      refine ⟨rfl, ⟨iff_of_true rfl ⟨_, rfl⟩, ?_, trivial⟩, rfl⟩
      intro i hi
      cases hi

/-- A forbidden kind of cell is reported at the first character that has such cells. -/
theorem pointed_forbid {t : Template} (ht : (Value.template t).Faithful) {kind : Cell → Bool}
    {P : Char → Prop} {fault : Char → Fault}
    (hmeans : ∀ c block, t.base.Means c block → ((∃ cell ∈ block, kind cell = true) ↔ P c))
    (hblames : ∀ c, (fault c).Blames t.base = P) (hnames : ∀ c, P c → (fault c).Names c)
    (hclean : ∀ c, P c → (fault c).Clean) (hwidth : ∀ c bits, fault c ≠ .wrongWidth bits)
    {d : Diagnostic} (h : t.forbid kind fault = .error d) :
    (∃ c, d.fault = fault c) ∧ d.text = t.text ∧ d.Pointed t.base := by
  unfold forbid at h
  cases hmark : t.firstMark? kind with
  | none =>
    rw [hmark] at h
    cases h
  | some mark =>
    rw [hmark] at h
    have hblanks : ∀ c, isBlank c = true → ¬ P c := by
      intro c hc hP
      rw [← hblames c] at hP
      rw [Fault.not_blank_of_blames hP] at hc
      cases hc
    obtain ⟨before, c, after, hsplit, hbefore, hc, horigin⟩ := split_of_find?_readMarks
      hmeans hblanks (readMarks_of_faithful ht) hmark
    rw [Nat.zero_add] at horigin
    have hchar : t.text.toList[before.length]? = some c := by
      rw [hsplit]
      simp
    simp only [horigin, hchar, Option.getD_some] at h
    cases h
    refine ⟨⟨c, rfl⟩, rfl, iff_of_false ?_ ?_, ?_, hclean c hc⟩
    · intro hindex
      cases hindex
    · rintro ⟨bits, hbits⟩
      exact hwidth c bits hbits
    · intro i hi
      cases hi
      refine ⟨c, firstAt_of_split hsplit ?_ ?_, hnames c hc⟩
      · rwa [hblames]
      · rwa [hblames]

/-- Placeholders are reported at the first dot. -/
theorem pointed_forbidPlaceholders {t : Template} (ht : (Value.template t).Faithful)
    {purpose hint : String} (hplain : isPlain (purpose ++ hint) = true) {d : Diagnostic}
    (h : t.forbidPlaceholders purpose hint = .error d) :
    d.fault = .placeholder purpose hint ∧ d.text = t.text ∧ d.Pointed t.base := by
  have hnames : ∀ c, c = '.' → (Fault.placeholder purpose hint).Names c := by
    rintro c rfl
    refine ⟨"Placeholder ", " is not allowed in " ++ purpose ++ hint, ?_⟩
    unfold Fault.sentence
    simp only [← String.append_assoc]
    rfl
  obtain ⟨⟨_, hfault⟩, hrest⟩ := pointed_forbid ht
    (fun c block hblock => hblock.exists_placeholder_iff) (fun _ => rfl) hnames
    (fun _ _ => hplain) (fun _ _ hfault => Fault.noConfusion hfault) h
  exact ⟨hfault, hrest⟩

/-- Literals are reported at the first digit. -/
theorem pointed_forbidLiterals {t : Template} (ht : (Value.template t).Faithful)
    {purpose hint : String} (hplain : isPlain (purpose ++ hint) = true) {d : Diagnostic}
    (h : t.forbidLiterals purpose hint = .error d) :
    (∃ digit, d.fault = .literal digit purpose hint) ∧ d.text = t.text ∧ d.Pointed t.base := by
  have hnames : ∀ c, c ∈ t.base.digits → (Fault.literal c purpose hint).Names c := by
    intro c _
    refine ⟨"Literal ", " is not allowed in " ++ purpose ++ hint, ?_⟩
    unfold Fault.sentence
    simp only [String.append_assoc]
  exact pointed_forbid ht (fun c block hblock => hblock.exists_literal_iff) (fun _ => rfl) hnames
    (fun c hc => ⟨Base.not_blank_of_mem_digits hc, hplain⟩)
    (fun _ _ hfault => Fault.noConfusion hfault) h

/-- A template argument that is accepted stands for what its text writes. -/
theorem of_ofValue {v base : Value} {t : Template} (hv : v.Faithful) (h : ofValue v base = .ok t) :
    Base.ofValue base = .ok t.base ∧ v.templateText? = some t.text ∧
      (Value.template t).Faithful := by
  cases hbase : Base.ofValue base with
  | error e => cases v <;> simp [ofValue, ofText, hbase] at h
  | ok b =>
    cases v with
    | template u =>
      simp only [ofValue, hbase] at h
      split at h
      · rename_i heq
        cases h
        rw [heq]
        exact ⟨rfl, rfl, hv⟩
      · cases h
    | text s =>
      have hfaithful : (Value.template t).Faithful := faithful_of_ofText (v := .text s) h
      simp only [ofValue, ofText, hbase] at h
      obtain ⟨htext, hb⟩ := written_of_parse ((mapError_eq_ok_iff _ _ _).mp h)
      rw [← htext, ← hb]
      exact ⟨rfl, rfl, hfaithful⟩
    | _ => cases h

end Template

/-- A letter is reported where it first occurs. -/
theorem Layout.pointed_letter {l : Layout} (hl : (Value.template l.template).Faithful)
    {a : Letter} (ha : a ∈ l.names) {fault : Fault} (hfault : fault.letter? = some a) :
    Diagnostic.Pointed l.template.base ⟨fault, l.template.text, l.origin? a⟩ := by
  obtain ⟨hblames, hnames, hclean, hwidth⟩ := Fault.of_letter? hfault
  obtain ⟨hmem, horigin⟩ := Layout.origin?_of_parse ((mapError_eq_ok_iff _ _ _).mp hl) ha
  obtain ⟨before, after, hsplit, hbefore⟩ := List.eq_append_cons_of_mem hmem
  have hindex : l.template.text.toList.idxOf a.char = before.length := by
    rw [hsplit, List.idxOf_append_of_notMem hbefore, List.idxOf_cons_self, Nat.add_zero]
  rw [horigin, hindex]
  refine ⟨iff_of_false nofun fun ⟨bits, hbits⟩ => hwidth bits hbits, ?_, hclean⟩
  intro i hi
  cases hi
  refine ⟨a.char, Text.firstAt_of_split hsplit ((hblames _ _).mpr rfl) ?_, hnames⟩
  intro c hc hblamed
  rw [(hblames _ _).mp hblamed] at hc
  exact hbefore hc

/-- A diagnostic without an index is about a width. With an index, its sentence names the character
there, which is the first that it blames, and its message has three rows: the sentence, the text
with blanks as spaces after four spaces, and a caret in the column of the character. -/
structure Diagnostic.Exact (base : Base) (d : Diagnostic) : Prop where
  index_eq_none_iff : d.index = none ↔ ∃ bits, d.fault = .wrongWidth bits
  first : ∀ i, d.index = some i → ∃ c, Text.FirstAt (d.fault.Blames base) d.text i c ∧
    d.fault.Names c
  shown : ∀ i, d.index = some i → ∃ message row, (Error.diagnostic d).message? = some message ∧
    Text.rows message =
      [d.fault.sentence.toList, row, List.replicate (4 + i) ' ' ++ ['^']] ∧
    row = List.replicate 4 ' ' ++
      d.text.toList.map (fun c => if Text.isBlank c then ' ' else c) ∧
    row[4 + i]? = d.text.toList[i]?

theorem Diagnostic.Pointed.exact {base : Base} {d : Diagnostic} (h : d.Pointed base) :
    d.Exact base := by
  refine ⟨h.index_eq_none_iff, h.first, ?_⟩
  intro i hi
  obtain ⟨c, hc, _⟩ := h.first i hi
  refine ⟨d.message, _, rfl, rows_message h.clean hi, rfl, ?_⟩
  rw [List.getElem?_append_right (by simp), List.length_replicate, Nat.add_sub_cancel_left,
    List.getElem?_map, hc.at_index, Option.map_some, if_neg]
  rw [Fault.not_blank_of_blames hc.holds]
  exact Bool.false_ne_true

end BitTemplate
