import BitTemplate.Module
import BitTemplate.Proofs.Words

/-!
The page of a module and what it becomes. Of the way in which a page is filled, only that is used
which each kind of block does for itself: a line is written with the texts that it names, a block
under a condition is written or left out, and a block over a table is written once for each row.
The page has an indentation, which is cut off, and blank lines at its ends, which are dropped. The
text that comes out has blanks at its end, which are cut off too. None of this takes away a line of
the module: the page has a margin of four spaces, and every line of code ends in a character that
is not blank.
-/
namespace BitTemplate

namespace Markup

/-- What a way to fill pages has to do. The texts that a line names are inserted as they are, and
nothing is left of the lines with the tags of a block. -/
structure Renderer.Lawful (render : Renderer) : Prop where
  nothing : ∀ c, render [] c = ""
  line : ∀ l page c, render (.line l :: page) c = c.fillLine l ++ render page c
  taken : ∀ condition body page c, c.holds condition = true →
    render (.when condition body :: page) c = render (body.map .line ++ page) c
  skipped : ∀ condition body page c, c.holds condition = false →
    render (.when condition body :: page) c = render page c
  rows : ∀ columns table body page c, render (.each columns table body :: page) c =
    String.join ((c.table table).map fun row => render (body.map .line) (c.bind columns row)) ++
      render page c

namespace Renderer.Lawful

variable {render : Renderer} (h : render.Lawful)

include h

theorem lines (ls : List Line) (page : List Block) (c : Context) :
    render (ls.map .line ++ page) c = c.fillLines ls ++ render page c := by
  induction ls with
  | nil => rw [List.map_nil, List.nil_append, Context.fillLines, List.map_nil, String.join_nil,
      String.empty_append]
  | cons l ls ih =>
    rw [List.map_cons, List.cons_append, h.line, ih, Context.fillLines, Context.fillLines,
      List.map_cons, String.join_cons, String.append_assoc]

/-- The laws leave no choice. -/
theorem eq_render : render = Markup.render := by
  funext page c
  induction page with
  | nil => exact h.nothing c
  | cons block page ih =>
    rw [Markup.render] at ih ⊢
    rw [List.map_cons, String.join_cons, ← ih]
    cases block with
    | line l => exact h.line l page c
    | when condition body =>
      cases hholds : c.holds condition with
      | true => rw [h.taken _ _ _ _ hholds, h.lines, Context.fillBlock, if_pos hholds]
      | false =>
        rw [h.skipped _ _ _ _ hholds, Context.fillBlock, if_neg (by simp [hholds]),
          String.empty_append]
    | each columns table body =>
      have hrow (row : List String) : render (body.map .line) (c.bind columns row) =
          (c.bind columns row).fillLines body := by
        have hlines := h.lines body [] (c.bind columns row)
        rwa [List.append_nil, h.nothing, String.append_empty] at hlines
      rw [h.rows, Context.fillBlock]
      simp only [hrow]

end Renderer.Lawful

theorem render_cons (block : Block) (page : List Block) (c : Context) :
    render (block :: page) c = c.fillBlock block ++ render page c := by
  rw [render, render, List.map_cons, String.join_cons]

theorem render_lines (ls : List Line) (c : Context) : render (ls.map .line) c = c.fillLines ls := by
  rw [render, List.map_map]
  rfl

theorem lawful_render : Renderer.Lawful render where
  nothing _ := rfl
  line l page c := render_cons (.line l) page c
  taken condition body page c hholds := by
    rw [render_cons, Context.fillBlock, if_pos hholds, ← render_lines, render, render, render,
      List.map_append, String.join_append]
  skipped condition body page c hholds := by
    rw [render_cons, Context.fillBlock, if_neg (by simp [hholds]), String.empty_append]
  rows columns table body page c := by
    simp only [render_cons, Context.fillBlock, render_lines]

end Markup

namespace Text

/-- Whether the last character of a text is not blank. -/
def endsInInk (s : String) : Bool := s.toList.getLast?.any fun c => !isBlank c

theorem endsInInk_append (s : String) {t : String} (h : endsInInk t = true) :
    endsInInk (s ++ t) = true := by
  unfold endsInInk at *
  rw [String.toList_append, List.getLast?_append]
  cases hlast : t.toList.getLast? with
  | none => simp [hlast] at h
  | some c => simpa [hlast] using h

theorem endsInInk_of_forall {s : String} (hne : s.toList ≠ [])
    (h : ∀ c ∈ s.toList, isBlank c = false) : endsInInk s = true := by
  rw [endsInInk, List.getLast?_eq_some_getLast hne, Option.any_some, h _ (List.getLast_mem hne)]
  rfl

theorem endsInInk_intercalate (s : String) {texts : List String} (hne : texts ≠ [])
    (h : ∀ t ∈ texts, endsInInk t = true) : endsInInk (s.intercalate texts) = true := by
  induction texts with
  | nil => exact absurd rfl hne
  | cons t texts ih =>
    rw [List.forall_mem_cons] at h
    cases texts with
    | nil => simpa using h.1
    | cons t' rest =>
      rw [String.intercalate_cons_cons]
      exact endsInInk_append _ (ih (List.cons_ne_nil _ _) h.2)

theorem endsInInk_decimalNat (n : Nat) : endsInInk (decimalNat n) = true := by
  refine endsInInk_of_forall ?_ fun c hc => not_blank_of_mem_decimalNat hc
  rw [decimalNat, String.toList_ofList]
  exact Nat.toDigits_ne_nil

theorem endsInInk_fixedHex (n width : Nat) : endsInInk (fixedHex n width) = true := by
  refine endsInInk_append _ (endsInInk_of_forall ?_ ?_)
  · rw [String.toList_ofList, ← List.length_pos_iff, length_lastDigits, hexDigitCount]
    omega
  · intro c hc
    rw [String.toList_ofList] at hc
    exact not_blank_of_isAlphanum (isAlphanum_of_mem_lastDigits hc)

/-- The last line of a text is ended, and is not blank. -/
def EndsLine (t : String) : Prop := ∃ s, endsInInk s = true ∧ t = s ++ "\n"

theorem EndsLine.append (s : String) {t : String} (h : EndsLine t) : EndsLine (s ++ t) := by
  obtain ⟨u, hu, rfl⟩ := h
  exact ⟨s ++ u, endsInInk_append s hu, (String.append_assoc ..).symm⟩

theorem EndsLine.append_join {s : String} (hs : EndsLine s) {ts : List String}
    (hts : ∀ t ∈ ts, EndsLine t) : EndsLine (s ++ String.join ts) := by
  induction ts generalizing s with
  | nil => rwa [String.join_nil, String.append_empty]
  | cons t ts ih =>
    rw [List.forall_mem_cons] at hts
    rw [String.join_cons, ← String.append_assoc]
    exact ih (hts.1.append s) hts.2

/-- Cutting off the blanks at the end takes away no more than the end of the last line. -/
theorem EndsLine.trimEnd_append {t : String} (h : EndsLine t) : trimEnd t ++ "\n" = t := by
  obtain ⟨s, hs, rfl⟩ := h
  rw [endsInInk, Option.any_eq_true] at hs
  obtain ⟨c, hlast, hc⟩ := hs
  obtain ⟨cs, hcs⟩ := List.getLast?_eq_some_iff.mp hlast
  have htrim : trimEnd (s ++ "\n") = s := by
    rw [trimEnd, String.toList_append, hcs]
    have hend : "\n".toList = ['\n'] := by decide
    rw [hend, List.reverse_append, List.reverse_append, List.reverse_singleton,
      List.reverse_singleton, List.singleton_append, List.singleton_append,
      List.dropWhile_cons_of_pos (by decide), List.dropWhile_cons_of_neg (by simpa using hc),
      List.reverse_cons, List.reverse_reverse, ← hcs, String.ofList_toList]
  rw [htrim]

end Text

namespace Program

open Text

theorem Name.endsInInk_text (x : Name) : endsInInk x.text = true := by
  cases x with
  | value => decide
  | target => decide
  | letter a =>
    refine endsInInk_of_forall ?_ ?_
    · simp [Name.text, Letter.text]
    · simpa [Name.text, Letter.text] using a.not_blank
  | input index => exact endsInInk_append _ (endsInInk_decimalNat index)
  | saturated index => exact endsInInk_append _ (endsInInk_decimalNat index)

theorem Term.endsInInk_text (t : Term) : endsInInk t.text = true := by
  cases t with
  | name x => exact x.endsInInk_text
  | constant c => exact endsInInk_fixedHex c.value c.width
  | mask t c => exact endsInInk_append _ (by decide)
  | left t distance => exact endsInInk_append _ (by decide)
  | right t distance => exact endsInInk_append _ (by decide)

theorem endsInInk_unionText (terms : List Term) : endsInInk (unionText terms) = true := by
  cases terms with
  | nil => decide
  | cons t rest =>
    refine endsInInk_intercalate _ (by simp) ?_
    intro text htext
    obtain ⟨t', _, rfl⟩ := List.mem_map.mp htext
    exact t'.endsInInk_text

theorem Expr.endsInInk_text (e : Expr) : endsInInk e.text = true := by
  cases e with
  | union terms => exact endsInInk_unionText terms
  | bounded terms c => exact endsInInk_append _ (endsInInk_fixedHex c.value c.width)
  | test x c => exact endsInInk_append _ (by decide)

theorem Return.endsInInk_text (result : Return) : endsInInk result.text = true := by
  cases result with
  | value e => exact e.endsInInk_text
  | tuple items =>
    rw [Return.text]
    unfold tupleText
    split
    · exact endsInInk_append _ (by decide)
    · exact endsInInk_append _ (by decide)
  | record name items => exact endsInInk_append _ (by decide)

theorem Function.endsLine_text (f : Function) : EndsLine f.text := by
  refine ⟨_, ?_, rfl⟩
  exact endsInInk_append _ (endsInInk_append _ f.result.endsInInk_text)

end Program

namespace Module

open Text

/-- The lines of the error that a checked field raises and of the function that raises it. -/
def preambleLines : List String :=
  ["", "",
    "class FieldOverflowError(OverflowError):",
    "    def __init__(self, name, value, width):",
    "        super().__init__(f\"Field \x7bname!r\x7d value \x7bvalue:#b\x7d does not fit in " ++
      "its \x7bwidth\x7d-bit \"",
    "                         f\"slot (maximum \x7b(1 << width) - 1:#b\x7d)\")",
    "        self.name  = name",
    "        self.value = value",
    "        self.width = width",
    "", "",
    "def overflow(name, value, width):",
    "    raise FieldOverflowError(name, value, width)"]

/-- A line that names no text. -/
def plainLine (l : String) : Markup.Line := if l = "" then [] else [.text l]

def recordBlock : List Markup.Line :=
  [[], [], [.text "", .value "record", .text " = collections.namedtuple(\"Fields\", ",
    .value "names", .text ")"]]

def functionBlock : List Markup.Line := [[], [], [.text "", .value "function"]]

/-- The page of a module at its left margin. -/
def page : List Markup.Block :=
  .line [.text "# Generated by splitbits ", .value "version"] ::
    .when "name" [[.text "# ", .value "name"]] ::
    .when "records" [[], [.text "import collections"]] ::
    ((preambleLines.map plainLine).map .line ++
      [.each ["record", "names"] "records" recordBlock,
        .each ["function"] "functions" functionBlock])

theorem strip_dedent_template : Markup.strip (Markup.dedent template) = page := by
  decide +kernel

/-- The description of a module, as a comment. -/
def description (name : Value) : String :=
  if name.isTrue then "# " ++ name.shown ++ "\n" else ""

/-- The import that records need. -/
def imports (m : Module) : String :=
  if m.records.isEmpty then "" else "\nimport collections\n"

def preamble : String := String.join (preambleLines.map (· ++ "\n"))

/-- The definition of a record. -/
def recordText (record : String × List Letter) : String :=
  "\n\n" ++ record.1 ++ " = collections.namedtuple(\"Fields\", " ++
    Program.tupleText (record.2.map Letter.quoted) ++ ")\n"

/-- The definition of a function, two lines below what comes before. -/
def functionText (f : Program.Function) : String := "\n\n" ++ f.text

/-- What comes below the description. -/
def body (m : Module) : String :=
  m.imports ++ preamble ++ String.join (m.records.map recordText) ++
    String.join (m.functions.map functionText)

theorem endsLine_preamble : EndsLine preamble := by
  have hsplit : preambleLines =
      preambleLines.dropLast ++ ["    raise FieldOverflowError(name, value, width)"] := by
    decide +kernel
  rw [preamble, hsplit, List.map_append, String.join_append, List.map_singleton,
    String.join_cons, String.join_nil, String.append_empty]
  exact .append _ ⟨_, by decide, rfl⟩

theorem endsLine_recordText (record : String × List Letter) : EndsLine (recordText record) :=
  .append _ ⟨")", by decide, by decide⟩

theorem endsLine_functionText (f : Program.Function) : EndsLine (functionText f) :=
  f.endsLine_text.append _

theorem endsLine_body (m : Module) : EndsLine m.body := by
  have hrecords : EndsLine
      (m.imports ++ preamble ++ String.join (m.records.map recordText)) := by
    refine (endsLine_preamble.append m.imports).append_join ?_
    intro t ht
    obtain ⟨record, _, rfl⟩ := List.mem_map.mp ht
    exact endsLine_recordText record
  refine hrecords.append_join ?_
  intro t ht
  obtain ⟨f, _, rfl⟩ := List.mem_map.mp ht
  exact endsLine_functionText f

section Filled

open Markup

variable (m : Module) (d : Value)

theorem fillLine_plainLine (c : Context) (l : String) : c.fillLine (plainLine l) = l ++ "\n" := by
  unfold plainLine
  split
  · rename_i hempty
    rw [hempty]
    rfl
  · simp [Context.fillLine, Context.fillPiece]

theorem fillLines_preamble (c : Context) :
    c.fillLines (preambleLines.map plainLine) = preamble := by
  have hlines : c.fillLine ∘ plainLine = (· ++ "\n") := funext (fillLine_plainLine c)
  rw [Context.fillLines, List.map_map, hlines, preamble]

theorem blankLines_append (s : String) : "\n" ++ ("\n" ++ s) = "\n\n" ++ s := by
  rw [← String.append_assoc]
  rfl

theorem fillLines_recordBlock (record : String × List Letter) :
    ((m.context d).bind ["record", "names"] (recordRow record)).fillLines recordBlock =
      recordText record := by
  simp [recordText, recordBlock, recordRow, Context.fillLines, Context.fillLine,
    Context.fillPiece, Context.bind, List.lookup_cons, List.lookup_nil, String.append_assoc,
    blankLines_append]

theorem fillLines_functionBlock (f : Program.Function) :
    ((m.context d).bind ["function"] [trimEnd f.text]).fillLines functionBlock =
      functionText f := by
  simp [functionText, functionBlock, Context.fillLines, Context.fillLine, Context.fillPiece,
    Context.bind, blankLines_append, f.endsLine_text.trimEnd_append]

theorem fillBlock_description :
    (m.context d).fillBlock (.when "name" [[.text "# ", .value "name"]]) = description d := by
  simp [Context.fillBlock, Context.fillLines, Context.fillLine, Context.fillPiece, context,
    description, String.append_assoc]

theorem fillBlock_imports :
    (m.context d).fillBlock (.when "records" [[], [.text "import collections"]]) = m.imports := by
  cases hrecords : m.records.isEmpty with
  | true => simp [Context.fillBlock, context, imports, hrecords]
  | false =>
    simp [Context.fillBlock, Context.fillLines, Context.fillLine, Context.fillPiece, context,
      imports, hrecords]

theorem fillBlock_records :
    (m.context d).fillBlock (.each ["record", "names"] "records" recordBlock) =
      String.join (m.records.map recordText) := by
  have htable : (m.context d).table "records" = m.records.map recordRow := rfl
  rw [Context.fillBlock, htable, List.map_map]
  exact congrArg String.join (List.map_congr_left fun record _ => fillLines_recordBlock m d record)

theorem fillBlock_functions :
    (m.context d).fillBlock (.each ["function"] "functions" functionBlock) =
      String.join (m.functions.map functionText) := by
  have htable : (m.context d).table "functions" = m.functions.map fun f => [trimEnd f.text] := rfl
  rw [Context.fillBlock, htable, List.map_map]
  exact congrArg String.join (List.map_congr_left fun f _ => fillLines_functionBlock m d f)

theorem render_page : Markup.render page (m.context d) =
    "# Generated by splitbits 0.1.0\n" ++ (description d ++ m.body) := by
  have hfirst : (m.context d).fillLine [.text "# Generated by splitbits ", .value "version"] =
      "# Generated by splitbits 0.1.0\n" := by
    simp [Context.fillLine, Context.fillPiece, context, version]
  rw [page, lawful_render.line, render_cons, render_cons, lawful_render.lines, render_cons,
    render_cons, lawful_render.nothing, hfirst, fillBlock_description, fillBlock_imports,
    fillLines_preamble, fillBlock_records, fillBlock_functions, body, String.append_empty]
  -- The prelude is opaque here, so that no rewriting evaluates it.
  generalize preamble = prelude
  simp only [String.append_assoc]

end Filled

/-- The text of a module, however its page is filled. Nothing is lost where blanks are cut off. -/
theorem textBy_eq {render : Markup.Renderer} (h : render.Lawful) (m : Module) (d : Value) :
    m.textBy render d = "# Generated by splitbits 0.1.0\n" ++ (description d ++ m.body) := by
  rw [textBy, h.eq_render, strip_dedent_template, render_page]
  exact ((m.endsLine_body.append _).append _).trimEnd_append

theorem textBy_eq_text {render : Markup.Renderer} (h : render.Lawful) (m : Module) (d : Value) :
    m.textBy render d = m.text d := by
  rw [text, textBy_eq h, textBy_eq Markup.lawful_render]

theorem text_eq (m : Module) (d : Value) :
    m.text d = "# Generated by splitbits 0.1.0\n" ++ (description d ++ m.body) :=
  textBy_eq Markup.lawful_render m d

end Module

end BitTemplate
