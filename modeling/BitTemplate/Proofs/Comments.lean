import BitTemplate.Proofs.Pages

/-!
What the description of a module does to its text. The code of a text are its lines that are not
blank, without the comments above the first definition. A description has its first line in a
comment, but the lines after that stand in the text as they are. They come in front of the code of
the module, so the description leaves the code alone exactly if each of them is blank or itself a
comment. A description of one line always does.
-/
namespace BitTemplate

namespace Text

def isLineBreak (c : Char) : Bool := c = '\n' ∨ c = '\r'

def lines (text : String) : List (List Char) := text.toList.splitOnP isLineBreak

/-- A text that ends its last line comes before the lines of what follows. -/
theorem lines_ended {s t : String} (h : t = s ++ "\n") (u : String) :
    lines (t ++ u) = lines s ++ lines u := by
  have hlist : (t ++ u).toList = s.toList ++ '\n' :: u.toList := by simp [h]
  rw [lines, hlist, List.splitOnP_append_cons _ _ (by decide)]
  rfl

theorem lines_of_unbroken {s : String} (h : ∀ c ∈ s.toList, isLineBreak c = false) :
    lines s = [s.toList] :=
  List.splitOnP_eq_singleton h

theorem exists_lines (s : String) : ∃ first later, lines s = first :: later :=
  List.exists_cons_of_ne_nil (List.splitOnP_ne_nil _ _)

/-- A mark in front of a text comes in front of its first line only. -/
theorem lines_mark {s : String} {first : List Char} {later : List (List Char)}
    (h : lines s = first :: later) : lines ("# " ++ s) = ('#' :: ' ' :: first) :: later := by
  have hmark : ("# " ++ s).toList = '#' :: ' ' :: s.toList := by simp
  rw [lines] at h ⊢
  rw [hmark, List.splitOnP_cons_eq_if_modifyHead, if_neg (by decide),
    List.splitOnP_cons_eq_if_modifyHead, if_neg (by decide), h]
  rfl

def isComment (line : List Char) : Bool := line.head? = some '#'

def isBlankLine (line : List Char) : Bool := line.all fun c => c = ' ' ∨ c = '\t' ∨ c = '\x0c'

/-- Whether a line begins the definition of a function or of a class. -/
def isDefinition (line : List Char) : Bool :=
  "def ".toList.isPrefixOf line || "class ".toList.isPrefixOf line

/-- The lines that are not blank, without the comments above the first definition. -/
def codeLines : List (List Char) → List (List Char)
  | [] => []
  | line :: rest =>
    if isDefinition line then (line :: rest).filter fun l => ¬ isBlankLine l
    else if isComment line ∨ isBlankLine line then codeLines rest
    else line :: codeLines rest

def code (text : String) : List (List Char) := codeLines (lines text)

theorem not_definition_of_comment {line : List Char} (h : isComment line) :
    ¬ isDefinition line := by
  cases line with
  | nil => simp [isComment] at h
  | cons c rest =>
    obtain rfl : c = '#' := by simpa [isComment] using h
    simp [isDefinition]

theorem not_definition_of_blank {line : List Char} (h : isBlankLine line) :
    ¬ isDefinition line := by
  cases line with
  | nil => simp [isDefinition]
  | cons c rest =>
    have hc : c = ' ' ∨ c = '\t' ∨ c = '\x0c' := by
      simpa [isBlankLine] using List.all_eq_true.1 h c List.mem_cons_self
    rcases hc with rfl | rfl | rfl <;> simp [isDefinition]

theorem codeLines_cons_of_silent {line : List Char} (rest : List (List Char))
    (h : isComment line ∨ isBlankLine line) : codeLines (line :: rest) = codeLines rest := by
  have hdef : ¬ isDefinition line := h.elim not_definition_of_comment not_definition_of_blank
  rw [codeLines, if_neg hdef, if_pos h]

theorem codeLines_append_of_comments {ls : List (List Char)} (rest : List (List Char))
    (h : ∀ line ∈ ls, isComment line) : codeLines (ls ++ rest) = codeLines rest := by
  induction ls with
  | nil => rfl
  | cons line ls ih =>
    rw [List.forall_mem_cons] at h
    rw [List.cons_append, codeLines_cons_of_silent _ (.inl h.1), ih h.2]

/-- Code in front of a text whose code is all that is not blank adds to it. The condition is
needed: a definition in front would keep the comments of the text. -/
theorem codeLines_append (ls : List (List Char)) {rest : List (List Char)}
    (h : codeLines rest = rest.filter fun l => ¬ isBlankLine l) :
    codeLines (ls ++ rest) = codeLines ls ++ codeLines rest := by
  induction ls with
  | nil => rfl
  | cons line ls ih =>
    rw [List.cons_append, codeLines, codeLines, ih]
    split
    · rw [h, ← List.cons_append, List.filter_append]
    · split <;> rfl

theorem codeLines_eq_nil_iff {ls : List (List Char)} :
    codeLines ls = [] ↔ ∀ line ∈ ls, isComment line ∨ isBlankLine line := by
  induction ls with
  | nil => simp [codeLines]
  | cons line ls ih =>
    rw [List.forall_mem_cons]
    by_cases hsilent : isComment line ∨ isBlankLine line
    · rw [codeLines_cons_of_silent _ hsilent, ih]
      exact (and_iff_right hsilent).symm
    · have hblank : ¬ isBlankLine line := fun h => hsilent (.inr h)
      refine iff_of_false ?_ fun h => hsilent h.1
      rw [codeLines, if_neg hsilent, List.filter_cons_of_pos (by simpa using hblank)]
      split <;> exact List.cons_ne_nil _ _

end Text

namespace Module

open Text

/-- The lines of a description below its first. -/
def laterLines (d : Value) : List (List Char) :=
  if d.isTrue then (lines d.shown).tail else []

theorem laterLines_of_unbroken {d : Value} (h : ∀ c ∈ d.shown.toList, isLineBreak c = false) :
    laterLines d = [] := by
  rw [laterLines, lines_of_unbroken h]
  split <;> rfl

theorem lines_description (m : Module) (d : Value) :
    ∃ heading, (∀ line ∈ heading, isComment line) ∧
      lines (description d ++ m.body) = heading ++ laterLines d ++ lines m.body := by
  unfold description laterLines
  split
  · obtain ⟨first, later, h⟩ := exists_lines d.shown
    refine ⟨['#' :: ' ' :: first], by simp [isComment], ?_⟩
    rw [lines_ended rfl, lines_mark h, h]
    rfl
  · exact ⟨[], by simp, by simp⟩

/-- The lines of a module: comments, then the later lines of the description as they are, then
what comes below the description. -/
theorem lines_text (m : Module) (d : Value) :
    ∃ heading, (∀ line ∈ heading, isComment line) ∧
      lines (m.text d) = heading ++ laterLines d ++ lines m.body := by
  obtain ⟨heading, hcomment, hlines⟩ := lines_description m d
  have hended : "# Generated by splitbits 0.1.0\n" = "# Generated by splitbits 0.1.0" ++ "\n" := by
    decide
  have hfirst : lines "# Generated by splitbits 0.1.0" =
      ["# Generated by splitbits 0.1.0".toList] := lines_of_unbroken (by simp [isLineBreak])
  refine ⟨"# Generated by splitbits 0.1.0".toList :: heading,
    List.forall_mem_cons.2 ⟨by decide, hcomment⟩, ?_⟩
  rw [text_eq, lines_ended hended, hfirst, hlines]
  rfl

theorem exists_body (m : Module) :
    ∃ rest, m.body =
      m.imports ++ ("\n\n" ++ ("class FieldOverflowError(OverflowError):\n" ++ rest)) := by
  have hpreamble : preamble = "\n\n" ++ ("class FieldOverflowError(OverflowError):\n" ++
      String.join ((preambleLines.drop 3).map (· ++ "\n"))) := by decide +kernel
  unfold body
  rw [hpreamble]
  generalize String.join ((preambleLines.drop 3).map (· ++ "\n")) = rest
  simp only [String.append_assoc]
  exact ⟨_, rfl⟩

/-- Above the first definition there are blank lines and at most the import. -/
theorem lines_body (m : Module) :
    ∃ above rest, lines m.body =
        above ++ "class FieldOverflowError(OverflowError):".toList :: rest ∧
      (above = [[], []] ∨ above = [[], "import collections".toList, [], []]) := by
  obtain ⟨rest, hbody⟩ := exists_body m
  have hblank : "\n\n" = "\n" ++ "\n" := by decide
  have hclass : "class FieldOverflowError(OverflowError):\n" =
      "class FieldOverflowError(OverflowError):" ++ "\n" := by decide
  have himport : "\nimport collections\n" = "\nimport collections" ++ "\n" := by decide
  have htail : lines ("\n\n" ++ ("class FieldOverflowError(OverflowError):\n" ++ rest)) =
      [[], []] ++ "class FieldOverflowError(OverflowError):".toList :: lines rest :=
    (lines_ended hblank _).trans (congrArg _ (lines_ended hclass rest))
  unfold imports at hbody
  split at hbody
  · refine ⟨[[], []], lines rest, ?_, .inl rfl⟩
    rw [hbody, String.empty_append, htail]
  · refine ⟨[[], "import collections".toList, [], []], lines rest, ?_, .inr rfl⟩
    rw [hbody, lines_ended himport, htail]
    rfl

/-- No comment stands between the description and the first definition. -/
theorem codeLines_body (m : Module) :
    codeLines (lines m.body) = (lines m.body).filter fun l => ¬ isBlankLine l := by
  obtain ⟨above, rest, hlines, rfl | rfl⟩ := lines_body m <;> rw [hlines] <;> rfl

theorem code_text (m : Module) (d : Value) :
    code (m.text d) = codeLines (laterLines d) ++ code (m.text .none) := by
  have htext (d : Value) :
      code (m.text d) = codeLines (laterLines d) ++ codeLines (lines m.body) := by
    obtain ⟨heading, hcomment, hlines⟩ := lines_text m d
    rw [code, hlines, List.append_assoc, codeLines_append_of_comments _ hcomment,
      codeLines_append _ (codeLines_body m)]
  have hnone : code (m.text .none) = codeLines (lines m.body) := htext .none
  rw [htext, hnone]

/-- The description of a module adds to its code the code of its later lines, and nothing else.
Two descriptions give the same code exactly if their later lines have the same code. A description
leaves the code as it is without one exactly if its later lines are blank or comments, and one
without a line break has no later lines. -/
theorem description_adds_later_lines (m : Module) :
    (∀ d, code (m.text d) = codeLines (laterLines d) ++ code (m.text .none)) ∧
    (∀ d d', code (m.text d) = code (m.text d') ↔
      codeLines (laterLines d) = codeLines (laterLines d')) ∧
    (∀ d, code (m.text d) = code (m.text .none) ↔
      ∀ line ∈ laterLines d, isComment line ∨ isBlankLine line) ∧
    ∀ d, (∀ c ∈ d.shown.toList, isLineBreak c = false) → laterLines d = [] := by
  refine ⟨code_text m, fun d d' => ?_, fun d => ?_, fun d => laterLines_of_unbroken⟩
  · rw [code_text m d, code_text m d', List.append_cancel_right_eq]
  · rw [code_text, List.append_left_eq_self, codeLines_eq_nil_iff]

/-- Quotes, braces and an empty description leave the code alone, and so do comments and blanks on
later lines. An assignment on a later line does not. -/
theorem description_adds_later_lines_record :
    ∃ x m, Extraction.make { template := .text "aab.bacc" } none = .ok x ∧
      ofItems [(.text "read", .operation (.extraction x))] = .ok m ∧
      code (m.text (.text "'a' \x7b\x7bname\x7d\x7d")) = code (m.text (.text "")) ∧
      code (m.text (.text "Fields\r\n# of a word\n\t ")) = code (m.text .none) ∧
      code (m.text (.text "Fields\nmin = max")) = "min = max".toList :: code (m.text .none) := by
  obtain ⟨x, m, hx, hm⟩ :
      ∃ x m, Extraction.make { template := .text "aab.bacc" } none = .ok x ∧
        ofItems [(.text "read", .operation (.extraction x))] = .ok m := ⟨_, _, rfl, rfl⟩
  obtain ⟨hadds, hsame, hnone, hunbroken⟩ := description_adds_later_lines m
  have hquoted : laterLines (.text "'a' \x7b\x7bname\x7d\x7d") = [] :=
    hunbroken _ (by simp [isLineBreak, Value.shown, Value.write])
  have hsilent : ∀ line ∈ laterLines (.text "Fields\r\n# of a word\n\t "),
      isComment line ∨ isBlankLine line := by decide
  have hassigned : codeLines (laterLines (.text "Fields\nmin = max")) = ["min = max".toList] := by
    decide
  refine ⟨x, m, hx, hm, (hsame _ _).2 ?_, (hnone _).2 hsilent, ?_⟩
  · rw [hquoted]
    rfl
  · rw [hadds, hassigned, List.singleton_append]

/-- The second line of a description is code of the module. -/
theorem description_reaches_code :
    ofItems [] = .ok {} ∧
      code (({} : Module).text (.text "a\nb")) ≠ code (({} : Module).text .none) := by
  refine ⟨rfl, ?_⟩
  rw [code_text, Ne, List.append_left_eq_self]
  decide

end Module

end BitTemplate
