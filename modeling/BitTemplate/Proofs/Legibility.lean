import BitTemplate.Proofs.Expansion
import BitTemplate.Proofs.Words

/-!
How a diagnostic is shown. Its sentence quotes single characters and has no blanks but plain
spaces, and neither has the line of the template, where all blanks are shown as spaces. So the
message is broken into three rows at whatever may end a line, and the caret of the last row stands
in the column of the character that the diagnostic points at.
-/
namespace BitTemplate

namespace Text

/-- Whether a character may end a row: every blank but the plain space. -/
def endsRow (c : Char) : Bool := isBlank c && c != ' '

/-- The rows of a text. -/
def rows (s : String) : List (List Char) := s.toList.splitOnP endsRow

/-- Whether a text stands in a single row. -/
def isPlain (s : String) : Bool := s.toList.all fun c => !endsRow c

theorem isPlain_append {s t : String} : isPlain (s ++ t) = true ↔
    isPlain s = true ∧ isPlain t = true := by
  simp [isPlain]

theorem isPlain_iff (s : String) : isPlain s = true ↔ ∀ c ∈ s.toList, endsRow c = false := by
  simp [isPlain]

theorem endsRow_of_not_blank {c : Char} (h : isBlank c = false) : endsRow c = false := by
  simp [endsRow, h]

theorem not_blank_digitChar {d : Nat} (h : d < 16) : isBlank (digitChar d) = false := by
  interval_cases d <;> rfl

theorem not_blank_of_mem_lastDigits {count n : Nat} {c : Char} (h : c ∈ lastDigits 16 count n) :
    isBlank c = false := by
  obtain ⟨d, hd, rfl⟩ := exists_digit_of_mem_lastDigits (by decide) h
  exact not_blank_digitChar hd

theorem not_blank_of_mem_escapeCode {c c' : Char} (h : c' ∈ escapeCode c) : isBlank c' = false := by
  have hcode : ∃ letter count, isBlank letter = false ∧
      escapeCode c = '\\' :: letter :: lastDigits 16 count c.toNat := by
    unfold escapeCode
    by_cases hbyte : c.toNat < 0x100
    · exact ⟨'x', 2, rfl, if_pos hbyte⟩
    · by_cases hshort : c.toNat < 0x10000
      · exact ⟨'u', 4, rfl, by simp [hbyte, hshort]⟩
      · exact ⟨'U', 8, rfl, by simp [hbyte, hshort]⟩
  obtain ⟨letter, count, hletter, heq⟩ := hcode
  rw [heq, List.mem_cons, List.mem_cons] at h
  rcases h with rfl | rfl | h
  · rfl
  · exact hletter
  · exact not_blank_of_mem_lastDigits h

theorem not_blank_of_mem_escape {mark c c' : Char} (hc : isBlank c = false)
    (h : c' ∈ escape mark c) : isBlank c' = false := by
  unfold escape at h
  split at h
  · rcases List.mem_pair.mp h with rfl | rfl
    · rfl
    · exact hc
  split at h
  · rcases List.mem_pair.mp h with rfl | rfl <;> rfl
  split at h
  · rcases List.mem_pair.mp h with rfl | rfl <;> rfl
  split at h
  · rcases List.mem_pair.mp h with rfl | rfl <;> rfl
  split at h
  · rwa [List.mem_singleton.mp h]
  · exact not_blank_of_mem_escapeCode h

theorem not_blank_enclosingMark (cs : List Char) : isBlank (enclosingMark cs) = false := by
  unfold enclosingMark
  split <;> rfl

/-- A character that is not blank is quoted in a single row. -/
theorem isPlain_quote {c : Char} (h : isBlank c = false) :
    isPlain (quote (String.ofList [c])) = true := by
  rw [isPlain_iff, quote, String.toList_ofList, String.toList_ofList]
  intro c' hc'
  apply endsRow_of_not_blank
  simp only [List.flatMap_cons, List.flatMap_nil, List.append_nil, List.cons_append,
    List.mem_cons, List.mem_append, List.not_mem_nil, or_false] at hc'
  rcases hc' with rfl | hc' | rfl
  · exact not_blank_enclosingMark _
  · exact not_blank_of_mem_escape h hc'
  · exact not_blank_enclosingMark _

theorem isPlain_decimalNat (n : Nat) : isPlain (decimalNat n) = true := by
  rw [isPlain_iff]
  intro c hc
  exact endsRow_of_not_blank (not_blank_of_mem_decimalNat hc)

/-- A text without row ends, one that is indented in its own row, and a caret are three rows. -/
theorem rows_of_plain {first : String} (h : isPlain first = true) (second third : List Char)
    (hsecond : ∀ c ∈ second, endsRow c = false) (hthird : ∀ c ∈ third, endsRow c = false) :
    rows (first ++ "\n" ++ String.ofList second ++ "\n" ++ String.ofList third) =
      [first.toList, second, third] := by
  have hlist : (first ++ "\n" ++ String.ofList second ++ "\n" ++ String.ofList third).toList =
      first.toList ++ '\n' :: (second ++ '\n' :: third) := by simp
  rw [rows, hlist, List.splitOnP_append_cons _ _ (by decide),
    List.splitOnP_append_cons _ _ (by decide),
    List.splitOnP_eq_singleton ((isPlain_iff first).mp h), List.splitOnP_eq_singleton hsecond,
    List.splitOnP_eq_singleton hthird]
  rfl

end Text

theorem Letter.isPlain_quoted (a : Letter) : Text.isPlain a.quoted = true :=
  Text.isPlain_quote a.not_blank

namespace Fault

/-- Whether the sentence of a fault has no odd blanks to show. -/
def Clean : Fault → Prop
  | .invalidCharacter c _ => Text.isBlank c = false
  | .placeholder purpose hint => Text.isPlain (purpose ++ hint) = true
  | .literal digit purpose hint =>
    Text.isBlank digit = false ∧ Text.isPlain (purpose ++ hint) = true
  | _ => True

theorem isPlain_sentence {fault : Fault} (h : fault.Clean) :
    Text.isPlain fault.sentence = true := by
  cases fault with
  | invalidCharacter c base =>
    have hbase : Text.isPlain base.adjective = true := by cases base <;> rfl
    unfold sentence
    simp only [Text.isPlain_append, Text.isPlain_quote h, hbase, and_true]
    exact ⟨⟨rfl, rfl⟩, rfl⟩
  | wrongWidth bits =>
    unfold sentence
    simp only [Text.isPlain_append, Text.isPlain_decimalNat, and_true]
    exact ⟨rfl, rfl⟩
  | placeholder purpose hint =>
    rw [Clean, Text.isPlain_append] at h
    unfold sentence
    simp only [Text.isPlain_append, h.1, h.2, and_true]
    rfl
  | literal digit purpose hint =>
    rw [Clean, Text.isPlain_append] at h
    unfold sentence
    simp only [Text.isPlain_append, Text.isPlain_quote h.1, h.2.1, h.2.2, and_true]
    exact ⟨rfl, rfl⟩
  | duplicateField a first second =>
    unfold sentence
    simp only [Text.isPlain_append, a.isPlain_quoted, Text.isPlain_decimalNat, and_true]
    exact ⟨⟨rfl, rfl⟩, rfl⟩
  | unproducedField a =>
    unfold sentence
    simp only [Text.isPlain_append, a.isPlain_quoted, and_true]
    exact ⟨rfl, rfl⟩
  | unboundField a =>
    unfold sentence
    simp only [Text.isPlain_append, a.isPlain_quoted, and_true]
    rfl

end Fault

namespace Diagnostic

/-- The rows of a diagnostic that points at an index: the sentence, the text of the template after
four spaces, and the caret below the character at the index. -/
theorem rows_message {d : Diagnostic} {i : Nat} (hclean : d.fault.Clean) (hi : d.index = some i) :
    Text.rows d.message = [d.fault.sentence.toList,
      List.replicate 4 ' ' ++ d.text.toList.map fun c => if Text.isBlank c then ' ' else c,
      List.replicate (4 + i) ' ' ++ ['^']] := by
  have hspaces : ∀ n, ∀ c ∈ List.replicate n ' ', Text.endsRow c = false := by
    intro n c hc
    rw [List.eq_of_mem_replicate hc]
    rfl
  have hmessage : d.message = d.fault.sentence ++ "\n" ++
      String.ofList (List.replicate 4 ' ' ++ Text.flatten d.text.toList) ++ "\n" ++
        String.ofList (List.replicate (4 + i) ' ' ++ ['^']) := by
    apply String.toList_injective
    simp [message, hi, render, caretLine]
  rw [hmessage, Text.rows_of_plain (Fault.isPlain_sentence hclean)]
  · rfl
  · intro c hc
    rcases List.mem_append.mp hc with hc | hc
    · exact hspaces 4 c hc
    · obtain ⟨c', _, rfl⟩ := List.mem_map.mp hc
      split
      · rfl
      · rename_i hblank
        exact Text.endsRow_of_not_blank (by simpa using hblank)
  · intro c hc
    rcases List.mem_append.mp hc with hc | hc
    · exact hspaces _ c hc
    · rw [List.mem_singleton.mp hc]
      rfl

end Diagnostic

end BitTemplate
