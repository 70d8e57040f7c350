import BitTemplate.Proofs.Comments
import BitTemplate.Proofs.Items
import BitTemplate.Proofs.Legibility
import BitTemplate.Proofs.Ownership
import BitTemplate.Proofs.Tokens

/-!
The lines of a module. Below its prelude, a module has one line for the record of each extraction
with named fields, and then the function of each item. The function is the source of the operation
under another name, line by line; only an extraction with named fields returns its record instead
of a tuple, made of the same expressions. No text in the code breaks a line, so these are all lines
there are.
-/
namespace BitTemplate

open Failure

namespace Text

/-- Whether a text consists of whole lines. -/
structure Consists (text : String) (ls : List String) : Prop where
  text_eq : text = String.join (ls.map (· ++ "\n"))
  unbroken : ∀ l ∈ ls, ∀ c ∈ l.toList, isLineBreak c = false

theorem consists_nil : Consists "" [] := ⟨rfl, by simp⟩

theorem Consists.append {s t : String} {ls ls' : List String} (h : Consists s ls)
    (h' : Consists t ls') : Consists (s ++ t) (ls ++ ls') := by
  refine ⟨?_, ?_⟩
  · rw [h.text_eq, h'.text_eq, List.map_append, String.join_append]
  · intro l hl
    rcases List.mem_append.mp hl with hl | hl
    · exact h.unbroken l hl
    · exact h'.unbroken l hl

theorem Consists.join {α : Type} {f : α → String} {g : α → List String} {xs : List α}
    (h : ∀ x ∈ xs, Consists (f x) (g x)) : Consists (String.join (xs.map f)) (xs.flatMap g) := by
  induction xs with
  | nil => exact consists_nil
  | cons x xs ih =>
    rw [List.forall_mem_cons] at h
    rw [List.map_cons, String.join_cons, List.flatMap_cons]
    exact h.1.append (ih h.2)

/-- The lines that a text consists of are those that it is broken into, with an empty one after
its last line end. -/
theorem Consists.lines_eq {s : String} {ls : List String} (h : Consists s ls) :
    lines s = ls.map String.toList ++ [[]] := by
  obtain ⟨rfl, hunbroken⟩ := h
  induction ls with
  | nil => rfl
  | cons l ls ih =>
    rw [List.forall_mem_cons] at hunbroken
    rw [List.map_cons, String.join_cons, lines_ended rfl, lines_of_unbroken hunbroken.1,
      ih hunbroken.2]
    rfl

/-- Whether a text stands in a single line. -/
def isUnbroken (s : String) : Bool := s.toList.all fun c => !isLineBreak c

theorem isUnbroken_append {s t : String} : isUnbroken (s ++ t) = true ↔
    isUnbroken s = true ∧ isUnbroken t = true := by
  simp [isUnbroken]

theorem isUnbroken_iff (s : String) :
    isUnbroken s = true ↔ ∀ c ∈ s.toList, isLineBreak c = false := by
  simp [isUnbroken]

theorem isLineBreak_iff (c : Char) : isLineBreak c = true ↔ c = '\n' ∨ c = '\r' := by
  simp [isLineBreak]

theorem isUnbroken_of_isPlain {s : String} (h : isPlain s = true) : isUnbroken s = true := by
  rw [isUnbroken_iff]
  intro c hc
  have hplain := (isPlain_iff s).mp h c hc
  rw [Bool.eq_false_iff, Ne, isLineBreak_iff]
  rintro (rfl | rfl) <;> cases hplain

theorem consists_of_unbroken {ls : List String} (h : ∀ l ∈ ls, isUnbroken l = true) :
    Consists (String.join (ls.map (· ++ "\n"))) ls :=
  ⟨rfl, fun l hl => (isUnbroken_iff l).mp (h l hl)⟩

theorem consists_line {l : String} (h : isUnbroken l = true) : Consists (l ++ "\n") [l] :=
  ⟨by simp, by simpa [isUnbroken_iff] using h⟩

theorem isUnbroken_decimalNat (n : Nat) : isUnbroken (decimalNat n) = true :=
  isUnbroken_of_isPlain (isPlain_decimalNat n)

theorem isUnbroken_intercalate {mark : String} (hmark : isUnbroken mark = true)
    {texts : List String} (h : ∀ text ∈ texts, isUnbroken text = true) :
    isUnbroken (mark.intercalate texts) = true := by
  induction texts with
  | nil => rfl
  | cons text rest ih =>
    rw [List.forall_mem_cons] at h
    cases rest with
    | nil =>
      rw [String.intercalate_singleton]
      exact h.1
    | cons next rest =>
      rw [String.intercalate_cons_cons]
      simp only [isUnbroken_append, h.1, hmark, ih h.2, and_true]

theorem isUnbroken_commas {texts : List String} (h : ∀ text ∈ texts, isUnbroken text = true) :
    isUnbroken (", ".intercalate texts) = true := isUnbroken_intercalate rfl h

theorem isUnbroken_of_isFreeName {s : String} (h : isFreeName s = true) : isUnbroken s = true := by
  rw [isFreeName, Bool.and_eq_true] at h
  rw [isUnbroken_iff]
  intro c hc
  have hpart := (Script.parts_of_isIdentifier h.1).1 c hc
  rw [Bool.eq_false_iff, Ne, isLineBreak_iff]
  rintro (rfl | rfl) <;> cases hpart

end Text

theorem Letter.isUnbroken_text (a : Letter) : Text.isUnbroken a.text = true := by
  apply Text.isUnbroken_of_isPlain
  rw [Text.isPlain_iff, Letter.text, String.toList_ofList]
  intro c hc
  rw [List.mem_singleton.mp hc]
  exact Text.endsRow_of_not_blank a.not_blank

theorem Letter.isUnbroken_quoted (a : Letter) : Text.isUnbroken a.quoted = true :=
  Text.isUnbroken_of_isPlain a.isPlain_quoted

namespace Program

open Text

theorem Name.isUnbroken_text (x : Name) : isUnbroken x.text = true := by
  cases x with
  | value => rfl
  | target => rfl
  | letter a => exact a.isUnbroken_text
  | input index => exact isUnbroken_append.mpr ⟨rfl, isUnbroken_decimalNat index⟩
  | saturated index => exact isUnbroken_append.mpr ⟨rfl, isUnbroken_decimalNat index⟩

theorem Constant.isUnbroken_text (c : Constant) : isUnbroken c.text = true := by
  refine isUnbroken_append.mpr ⟨rfl, isUnbroken_of_isPlain ?_⟩
  rw [isPlain_iff, String.toList_ofList]
  intro d hd
  exact endsRow_of_not_blank (not_blank_of_mem_lastDigits hd)

theorem Term.isUnbroken_text (t : Term) : isUnbroken t.text = true := by
  induction t with
  | name x => exact x.isUnbroken_text
  | constant c => exact c.isUnbroken_text
  | mask t c ih =>
    unfold text
    simp only [isUnbroken_append, ih, c.isUnbroken_text, and_true]
    exact ⟨⟨rfl, rfl⟩, rfl⟩
  | left t distance ih =>
    unfold text
    simp only [isUnbroken_append, ih, isUnbroken_decimalNat, and_true]
    exact ⟨⟨rfl, rfl⟩, rfl⟩
  | right t distance ih =>
    unfold text
    simp only [isUnbroken_append, ih, isUnbroken_decimalNat, and_true]
    exact ⟨⟨rfl, rfl⟩, rfl⟩

theorem isUnbroken_unionText (terms : List Term) : isUnbroken (unionText terms) = true := by
  unfold unionText
  split
  · rfl
  · apply isUnbroken_intercalate rfl
    intro text htext
    obtain ⟨t, _, rfl⟩ := List.mem_map.mp htext
    exact t.isUnbroken_text

theorem Expr.isUnbroken_text (e : Expr) : isUnbroken e.text = true := by
  cases e with
  | union terms => exact isUnbroken_unionText terms
  | bounded terms c =>
    unfold text
    simp only [isUnbroken_append, isUnbroken_unionText, c.isUnbroken_text, and_true]
    exact ⟨rfl, rfl⟩
  | test x c =>
    unfold text
    simp only [isUnbroken_append, x.isUnbroken_text, c.isUnbroken_text, and_true]
    exact ⟨⟨rfl, rfl⟩, rfl⟩

theorem isUnbroken_tupleText {items : List String} (h : ∀ item ∈ items, isUnbroken item = true) :
    isUnbroken (tupleText items) = true := by
  unfold tupleText
  split
  · simp only [isUnbroken_append, h _ (List.mem_singleton_self _), and_true]
    exact ⟨rfl, rfl⟩
  · simp only [isUnbroken_append, isUnbroken_commas h, and_true]
    exact ⟨rfl, rfl⟩

theorem isUnbroken_of_mem_exprs {es : List Expr} :
    ∀ item ∈ es.map Expr.text, isUnbroken item = true := by
  intro item hitem
  obtain ⟨e, _, rfl⟩ := List.mem_map.mp hitem
  exact e.isUnbroken_text

theorem Return.isUnbroken_text (result : Return)
    (h : ∀ name items, result = .record name items → isUnbroken name = true) :
    isUnbroken result.text = true := by
  cases result with
  | value e => exact e.isUnbroken_text
  | tuple items => exact isUnbroken_tupleText isUnbroken_of_mem_exprs
  | record name items =>
    unfold text
    simp only [isUnbroken_append, h name items rfl, isUnbroken_commas isUnbroken_of_mem_exprs,
      and_true, true_and]
    exact ⟨rfl, rfl⟩

/-- The lines of a step in the body of a function. -/
def Step.lines : Step → List String
  | .refuse x field limit =>
    ["    " ++ ("if " ++ x.text ++ " > " ++ limit.text ++ ":"),
      "        " ++ ("overflow(" ++ field.quoted ++ ", " ++ x.text ++ ", " ++
        decimalNat limit.width ++ ")")]
  | .clamp x source limit =>
    ["    " ++ (x.text ++ " = min(" ++ source.text ++ ", " ++ limit.text ++ ")")]
  | .assign x e => ["    " ++ (x.text ++ " = " ++ e.text)]

theorem Step.isUnbroken_of_mem_lines {step : Step} : ∀ l ∈ step.lines, isUnbroken l = true := by
  cases step with
  | refuse x field limit =>
    simp only [lines, List.forall_mem_cons, isUnbroken_append, x.isUnbroken_text,
      limit.isUnbroken_text, field.isUnbroken_quoted, isUnbroken_decimalNat, and_true]
    exact ⟨⟨rfl, ⟨rfl, rfl⟩, rfl⟩, ⟨rfl, ⟨⟨rfl, rfl⟩, rfl⟩, rfl⟩, nofun⟩
  | clamp x source limit =>
    simp only [lines, List.forall_mem_cons, isUnbroken_append, x.isUnbroken_text,
      source.isUnbroken_text, limit.isUnbroken_text, and_true]
    exact ⟨⟨rfl, ⟨⟨trivial, rfl⟩, rfl⟩, rfl⟩, nofun⟩
  | assign x e =>
    simp only [lines, List.forall_mem_cons, isUnbroken_append, x.isUnbroken_text, e.isUnbroken_text,
      and_true]
    exact ⟨⟨rfl, trivial, rfl⟩, nofun⟩

/-- A listing goes on with some lines at the depth where it is. -/
def Adds (l m : Listing) (ls : List String) : Prop :=
  m = { l with text := l.text ++ String.join (ls.map (· ++ "\n")) }

theorem Adds.trans {l m n : Listing} {ls ls' : List String} (h : Adds l m ls) (h' : Adds m n ls') :
    Adds l n (ls ++ ls') := by
  unfold Adds at h h' ⊢
  rw [h', h, List.map_append, String.join_append, String.append_assoc]

theorem adds_append {l : Listing} (hlevel : l.level = 1) (code : String) :
    Adds l (l.append code) ["    " ++ code] := by
  have hindent : Listing.indentation 1 = "    " := by rfl
  unfold Adds Listing.append
  rw [hlevel, hindent]
  simp [String.append_assoc]

theorem adds_nested {l : Listing} (hlevel : l.level = 1) (code : String) :
    Adds l (l.indent.append code).dedent ["        " ++ code] := by
  have hindent : Listing.indentation 2 = "        " := by rfl
  unfold Adds Listing.append Listing.indent Listing.dedent
  simp only [hlevel, hindent]
  simp [String.append_assoc]

/-- A step adds its lines to the body of a function. -/
theorem Step.adds_write (step : Step) {l : Listing} (hlevel : l.level = 1) :
    Adds l (step.write l) step.lines := by
  cases step with
  | refuse x field limit =>
    exact (adds_append hlevel _).trans (adds_nested (l := l.append _) hlevel _)
  | clamp x source limit => exact adds_append hlevel _
  | assign x e => exact adds_append hlevel _

theorem Step.adds_foldl_write (steps : List Step) {l : Listing} (hlevel : l.level = 1) :
    Adds l (steps.foldl Step.write l) (steps.flatMap Step.lines) := by
  induction steps generalizing l with
  | nil => simp [Adds]
  | cons step rest ih =>
    have hstep := step.adds_write hlevel
    have hnext : (step.write l).level = 1 := by
      rw [hstep]
      exact hlevel
    exact hstep.trans (ih hnext)

namespace Function

/-- The lines of a function below its first. -/
def bodyLines (f : Function) : List String :=
  f.steps.flatMap Step.lines ++ ["    " ++ ("return " ++ f.result.text)]

/-- A function whose names break no line consists of its header and its body. -/
theorem consists_text (f : Function) (hname : isUnbroken f.name = true)
    (hresult : isUnbroken f.result.text = true) : Consists f.text (f.header :: f.bodyLines) := by
  have hheader : isUnbroken f.header = true := by
    have hparams : isUnbroken (", ".intercalate (f.params.map Name.text)) = true := by
      apply isUnbroken_commas
      intro text htext
      obtain ⟨x, _, rfl⟩ := List.mem_map.mp htext
      exact x.isUnbroken_text
    unfold header
    simp only [isUnbroken_append, hname, hparams, and_true]
    exact ⟨⟨rfl, rfl⟩, rfl⟩
  have hunbroken : ∀ l ∈ f.header :: f.bodyLines, isUnbroken l = true := by
    rw [List.forall_mem_cons]
    refine ⟨hheader, ?_⟩
    intro l hl
    rcases List.mem_append.mp hl with hl | hl
    · obtain ⟨step, _, hstep⟩ := List.mem_flatMap.mp hl
      exact Step.isUnbroken_of_mem_lines l hstep
    · rw [List.mem_singleton.mp hl, isUnbroken_append, isUnbroken_append]
      exact ⟨rfl, rfl, hresult⟩
  have htext : f.text = String.join ((f.header :: f.bodyLines).map (· ++ "\n")) := by
    have hsteps := Step.adds_foldl_write f.steps (l := (({} : Listing).append f.header).indent) rfl
    have hlevel : (f.steps.foldl Step.write (({} : Listing).append f.header).indent).level = 1 := by
      rw [hsteps]
      rfl
    have hbody := hsteps.trans (adds_append hlevel ("return " ++ f.result.text))
    have hfirst : (({} : Listing).append f.header).indent.text = f.header ++ "\n" := by
      simp [Listing.append, Listing.indent, Listing.indentation]
    rw [List.map_cons, String.join_cons, ← hfirst]
    exact congrArg Listing.text hbody
  rw [htext]
  exact consists_of_unbroken hunbroken

end Function

end Program

namespace Operation

/-- Whether an operation is an extraction with named fields. -/
def isNamed : Operation → Bool
  | .extraction x => x.named
  | _ => false

theorem record?_eq_none_iff (op : Operation) (name : String) :
    op.record? name = none ↔ op.isNamed = false := by
  cases op with
  | extraction x => simp [record?, isNamed]
  | combination c => exact iff_of_true rfl rfl
  | replacement r => exact iff_of_true rfl rfl
  | transfer t => exact iff_of_true rfl rfl

/-- Without a record, only the name of a function changes with the name that is asked for. -/
theorem function_renamed {op : Operation} {name : String} {f : Program.Function}
    (h : op.function name none = .ok f) (name' : String) :
    op.function name' none = .ok { f with name := name' } ∧
      ∀ r items, f.result ≠ .record r items := by
  cases op with
  | extraction x =>
    obtain ⟨items, hitems, hf⟩ := (bind_eq_ok_iff _ _ _).mp h
    cases hf
    exact ⟨(bind_eq_ok_iff _ _ _).mpr ⟨items, hitems, rfl⟩, nofun⟩
  | combination c =>
    obtain ⟨items, hitems, hf⟩ := (bind_eq_ok_iff _ _ _).mp h
    cases hf
    exact ⟨(bind_eq_ok_iff _ _ _).mpr ⟨items, hitems, rfl⟩, nofun⟩
  | replacement r =>
    obtain ⟨items, hitems, hf⟩ := (bind_eq_ok_iff _ _ _).mp h
    cases hf
    exact ⟨(bind_eq_ok_iff _ _ _).mpr ⟨items, hitems, rfl⟩, nofun⟩
  | transfer t =>
    obtain ⟨assigned, hassigned, hrest⟩ := (bind_eq_ok_iff _ _ _).mp h
    obtain ⟨items, hitems, hf⟩ := (bind_eq_ok_iff _ _ _).mp hrest
    cases hf
    exact ⟨(bind_eq_ok_iff _ _ _).mpr ⟨assigned, hassigned,
      (bind_eq_ok_iff _ _ _).mpr ⟨items, hitems, rfl⟩⟩, nofun⟩

end Operation

namespace Module

open Text

/-- The first line of a function of a name. -/
def headerLine (name params : String) : String := "def " ++ name ++ "(" ++ params ++ "):"

/-- The lines above the definitions of the items. -/
def openingLines (d : Value) (records : Bool) : List String :=
  ["# Generated by splitbits 0.1.0"] ++ (if d.isTrue then ["# " ++ d.shown] else []) ++
    (if records then ["", "import collections"] else []) ++ preambleLines

/-- The lines of the record of an item, which an extraction with named fields has. -/
def recordLines (key : String) : Operation → List String
  | .extraction x =>
    if x.named then
      ["", "", recordName key ++ " = collections.namedtuple(\"Fields\", " ++
        Program.tupleText (x.names.map Letter.quoted) ++ ")"]
    else []
  | _ => []

/-- How the lines of the source of an operation become those of the function of an item. The first
line has the name of the item. An extraction with named fields returns its record, made of the
expressions of the fields that are the items of the tuple in the source. -/
inductive Renamed (key : String) : Operation → List String → List String → Prop where
  | plain {op : Operation} (h : op.isNamed = false) (params : String) (body : List String) :
      Renamed key op (headerLine "run" params :: body) (headerLine key params :: body)
  | named {x : Extraction} (h : x.named = true) {items : List Program.Expr}
      (hitems : x.shaped.mapM (fun pair =>
        Program.extract x.layout.width pair.1 .value (some pair.2)) = .ok items) :
      Renamed key (.extraction x)
        [headerLine "run" "value",
          "    return " ++ Program.tupleText (items.map Program.Expr.text)]
        [headerLine key "value",
          "    return " ++ (recordName key ++ "(" ++
            ", ".intercalate (items.map Program.Expr.text) ++ ")")]

theorem consists_preamble : Consists preamble preambleLines :=
  consists_of_unbroken (by decide +kernel)

theorem consists_imports (m : Module) : Consists m.imports
    (if m.records.isEmpty then [] else ["", "import collections"]) := by
  unfold imports
  split
  · exact consists_nil
  · have hlines : ∀ l ∈ ["", "import collections"], isUnbroken l = true := by decide
    exact consists_of_unbroken hlines

theorem consists_description {d : Value} (h : ∀ c ∈ d.shown.toList, isLineBreak c = false) :
    Consists (description d) (if d.isTrue then ["# " ++ d.shown] else []) := by
  unfold description
  split
  · refine ⟨by simp, ?_⟩
    intro l hl c hc
    rw [List.mem_singleton.mp hl, String.toList_append, List.mem_append] at hc
    rcases hc with hc | hc
    · exact (isUnbroken_iff "# ").mp rfl c hc
    · exact h c hc
  · exact consists_nil

/-- Two empty lines above a text. -/
theorem consists_below {s : String} {ls : List String} (h : Consists s ls) :
    Consists ("\n\n" ++ s) ("" :: "" :: ls) := by
  have hblank : ∀ l ∈ ["", ""], isUnbroken l = true := by decide
  exact (consists_of_unbroken hblank).append h

theorem consists_recordText {key : String} (hkey : isUnbroken key = true) (x : Extraction)
    (hnamed : x.named = true) :
    Consists (recordText (recordName key, x.names)) (recordLines key (.extraction x)) := by
  have hrecord : isUnbroken (recordName key) = true := isUnbroken_append.mpr ⟨hkey, rfl⟩
  have hletters : isUnbroken (Program.tupleText (x.names.map Letter.quoted)) = true := by
    apply Program.isUnbroken_tupleText
    intro item hitem
    obtain ⟨a, _, rfl⟩ := List.mem_map.mp hitem
    exact a.isUnbroken_quoted
  have hline : isUnbroken (recordName key ++ " = collections.namedtuple(\"Fields\", " ++
      Program.tupleText (x.names.map Letter.quoted) ++ ")") = true := by
    simp only [isUnbroken_append, hrecord, hletters, and_true, true_and]
    exact ⟨rfl, rfl⟩
  have htext : recordText (recordName key, x.names) = "\n\n" ++ (recordName key ++
      " = collections.namedtuple(\"Fields\", " ++
        Program.tupleText (x.names.map Letter.quoted) ++ ")" ++ "\n") := by
    have hend : ")\n" = ")" ++ "\n" := by decide
    unfold recordText
    rw [hend]
    simp only [String.append_assoc]
  rw [htext, recordLines, if_pos hnamed]
  exact consists_below (consists_line hline)

/-- The function of an item has the lines of the source of its operation, renamed. -/
theorem Entry.Valid.renamed {e : Entry} (h : e.Valid) :
    Consists e.code.text (e.code.header :: e.code.bodyLines) ∧
      ∃ source ls, e.op.source = .ok source ∧ Consists source ls ∧
        Renamed e.name e.op ls (e.code.header :: e.code.bodyLines) := by
  obtain ⟨name, op, code⟩ := e
  obtain ⟨hfree, _, hcode⟩ := h
  have hname : isUnbroken name = true :=
    isUnbroken_of_isFreeName (hfree name (List.mem_cons_self ..)).1
  have hdefault : isUnbroken "run" = true := by decide
  cases hnamed : op.isNamed with
  | false =>
    have hnone : op.record? name = none := (op.record?_eq_none_iff name).mpr hnamed
    simp only [Entry.record?, hnone, Option.map_none] at hcode
    obtain ⟨hrun, hresult⟩ := Operation.function_renamed hcode "run"
    have hreturn : isUnbroken code.result.text = true :=
      code.result.isUnbroken_text fun r items hrecord => absurd hrecord (hresult r items)
    have hcodeName : code.name = name := Operation.name_of_function hcode
    refine ⟨code.consists_text (hcodeName ▸ hname) hreturn, _,
      headerLine "run" (", ".intercalate (code.params.map Program.Name.text)) :: code.bodyLines,
      (map_eq_ok_iff _ _ _).mpr ⟨_, hrun, rfl⟩, ?_, ?_⟩
    · exact Program.Function.consists_text { code with name := "run" } hdefault hreturn
    · rw [Program.Function.header, hcodeName]
      exact .plain hnamed _ _
  | true =>
    cases op with
    | extraction x =>
      have hrecord : isUnbroken (recordName name) = true := isUnbroken_append.mpr ⟨hname, rfl⟩
      have hsome : (Operation.extraction x).record? name = some (recordName name, x.names) :=
        if_pos hnamed
      simp only [Entry.record?, hsome, Option.map_some] at hcode
      obtain ⟨items, hitems, hfunction⟩ := (bind_eq_ok_iff _ _ _).mp hcode
      cases hfunction
      have hreturn : ∀ text, "    " ++ ("return " ++ text) = "    return " ++ text := by
        intro text
        rw [← String.append_assoc]
        rfl
      have htuple := Program.Return.isUnbroken_text (.tuple items) (by rintro _ _ h; cases h)
      have hmade := Program.Return.isUnbroken_text (.record (recordName name) items)
        (by rintro _ _ h; cases h; exact hrecord)
      refine ⟨Program.Function.consists_text _ hname hmade, _, _,
        (map_eq_ok_iff _ _ _).mpr ⟨_, (bind_eq_ok_iff _ _ _).mpr ⟨items, hitems, rfl⟩, rfl⟩,
        Program.Function.consists_text _ hdefault htuple, ?_⟩
      have hrenamed : Renamed name (.extraction x) _ _ := .named hnamed hitems
      rw [← hreturn, ← hreturn] at hrenamed
      exact hrenamed
    | _ => cases hnamed

theorem Entry.Valid.consists_record {e : Entry} (h : e.Valid) :
    Consists (String.join (e.record?.toList.map recordText)) (recordLines e.name e.op) := by
  obtain ⟨name, op, code⟩ := e
  have hname : isUnbroken name = true :=
    isUnbroken_of_isFreeName (h.free name (List.mem_cons_self ..)).1
  cases op with
  | extraction x =>
    cases hnamed : x.named with
    | true =>
      have hsome : (Operation.extraction x).record? name = some (recordName name, x.names) :=
        if_pos hnamed
      simp only [Entry.record?, hsome, Option.toList_some, List.map_cons, List.map_nil,
        String.join_cons, String.join_nil, String.append_empty]
      exact consists_recordText hname x hnamed
    | false =>
      simp only [Entry.record?, Operation.record?, recordLines, hnamed]
      exact consists_nil
  | combination c => exact consists_nil
  | replacement r => exact consists_nil
  | transfer t => exact consists_nil

theorem consists_records {entries : List Entry} (h : ∀ e ∈ entries, e.Valid) :
    Consists (String.join ((ofEntries entries).records.map recordText))
      (entries.flatMap fun e => recordLines e.name e.op) := by
  induction entries with
  | nil => exact consists_nil
  | cons e rest ih =>
    rw [List.forall_mem_cons] at h
    have hrecords : (ofEntries (e :: rest)).records =
        e.record?.toList ++ (ofEntries rest).records := rfl
    rw [hrecords, List.map_append, String.join_append, List.flatMap_cons]
    exact h.1.consists_record.append (ih h.2)

/-- A module has records exactly if some item is an extraction with named fields. -/
theorem isEmpty_records (entries : List Entry) :
    (ofEntries entries).records.isEmpty = !entries.any fun e => e.op.isNamed := by
  have hrecord (e : Entry) : e.record?.toList = [] ↔ e.op.isNamed = false := by
    rw [Option.toList_eq_nil_iff]
    exact e.op.record?_eq_none_iff e.name
  rw [Bool.eq_iff_iff, List.isEmpty_iff, ofEntries, List.flatMap_eq_nil_iff]
  simp only [hrecord, Bool.not_eq_true', List.any_eq_false, Bool.not_eq_true]

/-- The lines of a module. -/
def lineList (d : Value) (entries : List Entry) : List String :=
  openingLines d (entries.any fun e => e.op.isNamed) ++
    (entries.flatMap fun e => recordLines e.name e.op) ++
    entries.flatMap fun e => "" :: "" :: e.code.header :: e.code.bodyLines

theorem consists_lineList {entries : List Entry} (h : ∀ e ∈ entries, e.Valid) {d : Value}
    (hd : ∀ c ∈ d.shown.toList, isLineBreak c = false) :
    Consists ((ofEntries entries).text d) (lineList d entries) := by
  have hheading : Consists "# Generated by splitbits 0.1.0\n"
      ["# Generated by splitbits 0.1.0"] := consists_line (l := "# Generated by splitbits 0.1.0")
    (by decide)
  have himports : Consists (ofEntries entries).imports
      (if entries.any fun e => e.op.isNamed then ["", "import collections"] else []) := by
    have hlines := (ofEntries entries).consists_imports
    rw [isEmpty_records] at hlines
    cases hany : entries.any fun e => e.op.isNamed with
    | false => simpa [hany] using hlines
    | true => simpa [hany] using hlines
  have hfunctions : Consists
      (String.join ((ofEntries entries).functions.map functionText))
      (entries.flatMap fun e => "" :: "" :: e.code.header :: e.code.bodyLines) := by
    have hmap : (ofEntries entries).functions.map functionText =
        entries.map fun e => functionText e.code := List.map_map ..
    rw [hmap]
    exact .join fun e he => consists_below (h e he).renamed.1
  have hbody : Consists (ofEntries entries).body _ :=
    ((himports.append consists_preamble).append (consists_records h)).append hfunctions
  have hlines := hheading.append ((consists_description hd).append hbody)
  rw [text_eq]
  simpa only [lineList, openingLines, List.append_assoc] using hlines

theorem head?_append {s : String} {c : Char} (h : s.toList.head? = some c) (t : String) :
    (s ++ t).toList.head? = some c := by
  rw [String.toList_append, List.head?_append, h]
  rfl

/-- The lines of a function below its first are indented. -/
theorem head?_of_mem_bodyLines {f : Program.Function} {l : String} (h : l ∈ f.bodyLines) :
    l.toList.head? = some ' ' := by
  rcases List.mem_append.mp h with hl | hl
  · obtain ⟨step, _, hstep⟩ := List.mem_flatMap.mp hl
    cases step with
    | refuse x field limit =>
      rcases List.mem_pair.mp hstep with rfl | rfl
      · exact head?_append rfl _
      · exact head?_append rfl _
    | clamp x source limit =>
      rw [List.mem_singleton.mp hstep]
      exact head?_append rfl _
    | assign x e =>
      rw [List.mem_singleton.mp hstep]
      exact head?_append rfl _
  · rw [List.mem_singleton.mp hl]
    exact head?_append rfl _

theorem head?_header (f : Program.Function) : f.header.toList.head? = some 'd' :=
  head?_append (head?_append (head?_append (head?_append rfl _) _) _) _

theorem import_mem_openingLines_iff (d : Value) (records : Bool) :
    "import collections" ∈ openingLines d records ↔ records = true := by
  have hdescription : "import collections" ≠ "# " ++ d.shown := by
    intro h
    have hhead := head?_append (s := "# ") rfl d.shown
    rw [← h] at hhead
    cases hhead
  have hfirst : "import collections" ∉ ["# Generated by splitbits 0.1.0"] := by decide
  have hpreamble : "import collections" ∉ preambleLines := by decide +kernel
  unfold openingLines
  simp only [List.mem_append, hfirst, hpreamble, false_or, or_false]
  constructor
  · rintro (h | h)
    · split at h
      · exact absurd (List.mem_singleton.mp h) hdescription
      · cases h
    · split at h
      · assumption
      · cases h
  · rintro rfl
    right
    decide

theorem import_notMem_recordLines (key : String) (op : Operation) :
    "import collections" ∉ recordLines key op := by
  have hlast (s : String) : "import collections" ≠ s ++ ")" := by
    intro h
    have hend : (s ++ ")").toList.getLast? = some ')' := by simp
    rw [← h] at hend
    cases hend
  cases op with
  | extraction x =>
    rw [recordLines]
    split
    · simp only [List.mem_cons, List.not_mem_nil, or_false, not_or]
      exact ⟨by decide, by decide, hlast _⟩
    · simp
  | combination c => simp [recordLines]
  | replacement r => simp [recordLines]
  | transfer t => simp [recordLines]

theorem import_mem_lineList_iff (d : Value) (entries : List Entry) :
    "import collections" ∈ lineList d entries ↔ ∃ e ∈ entries, e.op.isNamed = true := by
  have hrecords : "import collections" ∉
      entries.flatMap fun e => recordLines e.name e.op := by
    intro h
    obtain ⟨e, _, he⟩ := List.mem_flatMap.mp h
    exact import_notMem_recordLines e.name e.op he
  have hfunctions : "import collections" ∉
      entries.flatMap fun e => "" :: "" :: e.code.header :: e.code.bodyLines := by
    intro h
    obtain ⟨e, _, he⟩ := List.mem_flatMap.mp h
    rcases List.mem_cons.mp he with he | he
    · exact absurd he (by decide)
    · rcases List.mem_cons.mp he with he | he
      · exact absurd he (by decide)
      · rcases List.mem_cons.mp he with he | he
        · have hhead := head?_header e.code
          rw [← he] at hhead
          cases hhead
        · cases head?_of_mem_bodyLines he
  rw [lineList, List.mem_append, List.mem_append, or_iff_left hfunctions, or_iff_left hrecords,
    import_mem_openingLines_iff, List.any_eq_true]

theorem item_injective : Function.Injective fun p : String × Operation =>
    (Value.text p.1, Content.operation p.2) := by
  rintro ⟨name, op⟩ ⟨name', op'⟩ h
  cases h
  rfl

/-- Below the opening lines, a text of a module has the record of each extraction with named fields
and then the function of each item, both in the order of the items, and nothing else. The function
has the lines of the source of the operation, renamed. The import stands in the text exactly if
there is a record. The letters of a record are those of the template, in the order in which they
first occur. -/
structure RepeatsSources (text : String) (d : Value) (ops : List (String × Operation))
    (functions : List (List String)) (ls : List String) : Prop where
  consists : Consists text ls
  lines_eq : ls = openingLines d (ops.any fun p => p.2.isNamed) ++
    ops.flatMap (fun p => recordLines p.1 p.2) ++
    functions.flatMap (fun function => "" :: "" :: function)
  renamed : List.Forall₂ (fun p function => ∃ source sourceLines, p.2.source = .ok source ∧
    Consists source sourceLines ∧ Renamed p.1 p.2 sourceLines function) ops functions
  import_mem_iff : "import collections" ∈ ls ↔ ∃ p ∈ ops, p.2.isNamed = true
  letters : ∀ p ∈ ops, ∀ x, p.2 = .extraction x →
    (∀ a, a ∈ x.names ↔ .field a ∈ x.layout.template.cells) ∧
    x.names.Pairwise fun a b => x.layout.template.cells.idxOf (.field a) <
      x.layout.template.cells.idxOf (.field b)

/-- However pages are filled, the text of a module repeats the sources of its items. -/
theorem text_repeats_sources {render : Markup.Renderer} (hrender : render.Lawful)
    {items : List (Value × Content)} {m : Module} {d : Value} (h : ofItems items = .ok m)
    (hd : ∀ c ∈ d.shown.toList, isLineBreak c = false) :
    ∃ (ops : List (String × Operation)) (functions : List (List String)) (ls : List String),
      items = ops.map (fun p => (.text p.1, .operation p.2)) ∧
      RepeatsSources (m.textBy render d) d ops functions ls := by
  obtain ⟨entries, rfl, hapart, rfl⟩ := (ofItems_eq_ok_iff _ _).mp h
  refine ⟨entries.map fun e => (e.name, e.op),
    entries.map fun e => e.code.header :: e.code.bodyLines, lineList d entries, ?_,
    ⟨?_, ?_, ?_, ?_, ?_⟩⟩
  · rw [List.map_map]
    rfl
  · rw [textBy_eq_text hrender]
    exact consists_lineList hapart.valid hd
  · rw [lineList, List.any_map, List.flatMap_map, List.flatMap_map]
    rfl
  · rw [List.forall₂_map_left_iff, List.forall₂_map_right_iff, List.forall₂_same]
    intro e he
    exact (hapart.valid e he).renamed.2
  · rw [import_mem_lineList_iff]
    simp
  · intro _ _ x _
    rw [Extraction.names, Layout.names_eq, Template.names]
    exact ⟨fun a => mem_lettersOf, lettersOf_ordered _⟩

theorem text_repeats_sources_mixed :
    ∃ x c m functions ls, Extraction.make { template := .text "aab.bacc" } none = .ok x ∧
      Combination.make ⟨.text "aaaabbbb", .base .binary, .text "panic", .none, .none⟩ none =
        .ok c ∧
      ofItems [(.text "read", .operation (.extraction x)),
        (.text "store", .operation (.combination c))] = .ok m ∧
      RepeatsSources (m.text (.text "Two words")) (.text "Two words")
        [("read", .extraction x), ("store", .combination c)] functions ls ∧
      "import collections" ∈ ls := by
  obtain ⟨x, c, m, hx, hc, hm, hnamed⟩ :
      ∃ x c m, Extraction.make { template := .text "aab.bacc" } none = .ok x ∧
        Combination.make ⟨.text "aaaabbbb", .base .binary, .text "panic", .none, .none⟩ none =
          .ok c ∧
        ofItems [(.text "read", .operation (.extraction x)),
          (.text "store", .operation (.combination c))] = .ok m ∧ x.named = true :=
    ⟨_, _, _, rfl, rfl, rfl, rfl⟩
  obtain ⟨ops, functions, ls, hitems, hrepeats⟩ :=
    text_repeats_sources Markup.lawful_render (d := .text "Two words") hm
      (by simp [isLineBreak, Value.shown, Value.write])
  obtain rfl : ops = [("read", .extraction x), ("store", .combination c)] :=
    List.map_injective_iff.mpr item_injective hitems.symm
  exact ⟨x, c, m, functions, ls, hx, hc, hm, hrepeats,
    hrepeats.import_mem_iff.mpr ⟨_, List.mem_cons_self .., hnamed⟩⟩

end Module

end BitTemplate
