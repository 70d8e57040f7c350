import BitTemplate.Proofs.Scope
import BitTemplate.Proofs.Spelling

/-!
The text of a function, read as code. A line of a listing is read as the tokens of its code, at the
depth of its indentation, and a line that is indented below another belongs to it. So the text of a
function is read as one definition: its name, its parameters, a statement for each step, and the
expression that it returns. Every mask and shift is in parentheses and unions grow to the left.
-/
namespace BitTemplate

namespace Script

open Text

/-! Rows -/

/-- A text of whole lines that holds some rows. -/
def Holds (s : String) (rows : List Row) : Prop :=
  ∀ u, rows? (s ++ u) = (rows? u).map (rows ++ ·)

/-- Code that fills a line, from its first character on. -/
structure Fills (code : String) (tokens : List Token) : Prop where
  lexes : Lexes code tokens
  starts : code.toList.head? ≠ some ' '
  ne_nil : tokens ≠ []

theorem holds_nil : Holds "" [] := by
  intro u
  simp

theorem Holds.append {s t : String} {rows rows' : List Row} (h : Holds s rows)
    (h' : Holds t rows') : Holds (s ++ t) (rows ++ rows') := by
  intro u
  rw [String.append_assoc, h, h', Option.map_map]
  congr 1
  funext others
  simp

theorem Holds.rows?_eq {s : String} {rows : List Row} (h : Holds s rows) :
    rows? s = some rows := by
  have hall := h ""
  rw [String.append_empty] at hall
  rw [hall]
  simp [rows?, lines, row?, tokens?]

theorem tokens?_spaces (n : Nat) (cs : List Char) :
    tokens? (List.replicate n ' ' ++ cs) = tokens? cs := by
  induction n with
  | zero => rfl
  | succ n ih => rw [List.replicate_succ, List.cons_append, tokens?_space, ih]

theorem takeWhile_spaces (n : Nat) {cs : List Char} (h : cs.head? ≠ some ' ') :
    ((List.replicate n ' ' ++ cs).takeWhile (· = ' ')).length = n := by
  have hcs : cs.takeWhile (· = ' ') = [] := by
    cases cs with
    | nil => rfl
    | cons c cs =>
      have hc : c ≠ ' ' := fun hc => h (by rw [hc]; rfl)
      simp [hc]
  rw [List.takeWhile_append_of_pos (by simp), hcs]
  simp

theorem holds_line {code : String} {tokens : List Token} (h : Fills code tokens) (level : Nat) :
    Holds (Listing.indentation level ++ code ++ "\n") [⟨4 * level, tokens⟩] := by
  have hlist : (Listing.indentation level ++ code).toList =
      List.replicate (4 * level) ' ' ++ code.toList := by
    simp [Listing.indentation]
  have htokens : tokens? (Listing.indentation level ++ code).toList = some tokens := by
    rw [hlist, tokens?_spaces, h.lexes.tokens?_eq]
  have hrow : row? (Listing.indentation level ++ code).toList = some ⟨4 * level, tokens⟩ := by
    rw [row?, htokens, hlist, takeWhile_spaces _ h.starts]
    rfl
  intro u
  rw [rows?, lines_ended rfl, lines_of_unbroken (unbroken_of_tokens? htokens),
    List.singleton_append, List.mapM_cons, hrow, rows?]
  cases (lines u).mapM row? with
  | none => rfl
  | some rows => simp [h.ne_nil]

/-- A line starts with a word. -/
theorem fills_of_isIdentifier {word rest : String} (h : isIdentifier word = true)
    {tokens : List Token} (hlexes : Lexes (word ++ rest) tokens) (hne : tokens ≠ []) :
    Fills (word ++ rest) tokens := by
  refine ⟨hlexes, ?_, hne⟩
  intro hspace
  obtain ⟨hparts, _⟩ := parts_of_isIdentifier h
  rw [String.toList_append] at hspace
  cases hlist : word.toList with
  | nil => simp [isIdentifier, hlist] at h
  | cons c cs =>
    have hc : c = ' ' := by simpa [hlist] using hspace
    have hpart := hparts c (hlist ▸ List.mem_cons_self)
    rw [hc] at hpart
    exact absurd hpart (by decide)

theorem fills_reserved (word : String) {code : String} (h : isIdentifier word = true)
    (hword : word ∈ keywords) {tokens : List Token} (hcode : Lexes code tokens) :
    Fills (word ++ " " ++ code) (.reserved word :: tokens) := by
  have hlexes := lexes_reserved h hword hcode
  rw [String.append_assoc] at hlexes ⊢
  exact fills_of_isIdentifier h hlexes (by simp)

/-! Statements -/

/-- Rows of one depth, with those that belong to them, that are read as some statements. -/
def Reads (depth : Nat) (rows : List Row) (statements : List Statement) : Prop :=
  ∀ rest, (∀ block ∈ arrange rest, block.depth ≤ depth) →
    ∃ blocks, arrange (rows ++ rest) = blocks ++ arrange rest ∧
      (∀ block ∈ blocks, block.depth = depth) ∧ statements? depth blocks = some statements

theorem statements?_append {depth : Nat} {blocks blocks' : List Block}
    {statements statements' : List Statement} (h : statements? depth blocks = some statements)
    (h' : statements? depth blocks' = some statements') :
    statements? depth (blocks ++ blocks') = some (statements ++ statements') := by
  induction blocks generalizing statements with
  | nil =>
    cases h
    exact h'
  | cons block blocks ih =>
    rw [statements?] at h
    split at h
    · rename_i hdepth
      obtain ⟨statement, hstatement, hrest⟩ := Option.bind_eq_some_iff.mp h
      obtain ⟨others, hothers, rfl⟩ := Option.map_eq_some_iff.mp hrest
      rw [List.cons_append, statements?, if_pos hdepth, hstatement, Option.bind_some, ih hothers]
      rfl
    · cases h

theorem reads_nil (depth : Nat) : Reads depth [] [] := by
  intro rest _
  exact ⟨[], rfl, by simp, rfl⟩

theorem Reads.append {depth : Nat} {rows rows' : List Row} {statements statements' : List Statement}
    (h : Reads depth rows statements) (h' : Reads depth rows' statements') :
    Reads depth (rows ++ rows') (statements ++ statements') := by
  intro rest hrest
  obtain ⟨blocks', harrange', hdepth', hstatements'⟩ := h' rest hrest
  have hlater : ∀ block ∈ arrange (rows' ++ rest), block.depth ≤ depth := by
    rw [harrange', List.forall_mem_append]
    exact ⟨fun block hblock => (hdepth' block hblock).le, hrest⟩
  obtain ⟨blocks, harrange, hdepth, hstatements⟩ := h (rows' ++ rest) hlater
  refine ⟨blocks ++ blocks', ?_, ?_, statements?_append hstatements hstatements'⟩
  · rw [List.append_assoc, harrange, harrange', List.append_assoc]
  · rw [List.forall_mem_append]
    exact ⟨hdepth, hdepth'⟩

/-- A row takes the blocks that are deeper, and no others. -/
theorem arrange_cons (row : Row) {rows : List Row} {inner outer : List Block}
    (h : arrange rows = inner ++ outer) (hinner : ∀ block ∈ inner, row.depth < block.depth)
    (houter : ∀ block ∈ outer, block.depth ≤ row.depth) :
    arrange (row :: rows) = ⟨row, inner⟩ :: outer := by
  have hstop : (outer.takeWhile fun block => row.depth < block.depth) = [] ∧
      (outer.dropWhile fun block => row.depth < block.depth) = outer := by
    cases outer with
    | nil => exact ⟨rfl, rfl⟩
    | cons block outer =>
      have hblock : ¬ row.depth < block.depth := (houter block List.mem_cons_self).not_gt
      simp [hblock]
  have hpos : ∀ block ∈ inner, decide (row.depth < block.depth) = true := by simpa using hinner
  rw [arrange, h, List.takeWhile_append_of_pos hpos, List.dropWhile_append_of_pos hpos, hstop.1,
    hstop.2, List.append_nil]

theorem reads_simple {depth : Nat} {tokens : List Token} {statement : Statement}
    (h : simple? tokens = some statement) : Reads depth [⟨depth, tokens⟩] [statement] := by
  intro rest hrest
  refine ⟨[⟨⟨depth, tokens⟩, []⟩], ?_, by simp [Block.depth], ?_⟩
  · exact arrange_cons ⟨depth, tokens⟩ (List.nil_append _).symm (by simp) hrest
  · simp [statements?, statement?, Block.depth, h]

theorem reads_check {depth inner : Nat} (hdepth : depth < inner) {tokens : List Token}
    {condition : Expression} (hcondition : condition? tokens = some condition) {rows : List Row}
    {statements : List Statement} (hne : statements ≠ []) (h : Reads inner rows statements) :
    Reads depth (⟨depth, .reserved "if" :: tokens⟩ :: rows) [.check condition statements] := by
  intro rest hrest
  obtain ⟨blocks, harrange, hinner, hstatements⟩ :=
    h rest fun block hblock => (hrest block hblock).trans hdepth.le
  refine ⟨[⟨⟨depth, .reserved "if" :: tokens⟩, blocks⟩], ?_, by simp [Block.depth], ?_⟩
  · refine arrange_cons _ harrange ?_ hrest
    intro block hblock
    rw [hinner block hblock]
    exact hdepth
  · cases blocks with
    | nil => exact absurd (Option.some.inj hstatements).symm hne
    | cons first others =>
      have hfirst := hinner first List.mem_cons_self
      have hcheck : statement? ⟨⟨depth, .reserved "if" :: tokens⟩, first :: others⟩ =
          some (.check condition statements) := by
        rw [statement?, if_pos rfl, hcondition, Option.bind_some, hfirst, hstatements,
          Option.map_some]
      simp [statements?, Block.depth, hcheck]

/-- A listing goes on with lines that are read as some statements. -/
def Extends (l m : Listing) (statements : List Statement) : Prop :=
  m.level = l.level ∧ ∃ text rows, m.text = l.text ++ text ∧ Holds text rows ∧
    Reads (4 * l.level) rows statements

theorem extends_refl (l : Listing) : Extends l l [] :=
  ⟨rfl, "", [], by simp, holds_nil, reads_nil _⟩

theorem Extends.trans {l m n : Listing} {statements statements' : List Statement}
    (h : Extends l m statements) (h' : Extends m n statements') :
    Extends l n (statements ++ statements') := by
  obtain ⟨hlevel, text, rows, htext, hholds, hreads⟩ := h
  obtain ⟨hlevel', text', rows', htext', hholds', hreads'⟩ := h'
  refine ⟨hlevel'.trans hlevel, text ++ text', rows ++ rows', ?_, hholds.append hholds', ?_⟩
  · rw [htext', htext, String.append_assoc]
  · rw [hlevel] at hreads'
    exact hreads.append hreads'

theorem extends_append (l : Listing) {code : String} {tokens : List Token} {statement : Statement}
    (h : Fills code tokens) (hreads : Reads (4 * l.level) [⟨4 * l.level, tokens⟩] [statement]) :
    Extends l (l.append code) [statement] := by
  refine ⟨rfl, _, _, ?_, holds_line h l.level, hreads⟩
  rw [Listing.append, String.append_assoc, String.append_assoc, String.append_assoc]

/-- A definition is all that a script holds. -/
theorem definition?_arrange {depth : Nat} (hdepth : 0 < depth) {f : String} {tokens : List Token}
    {params : List String} (hparams : params? tokens = some params) {rows : List Row}
    {statements : List Statement} (hne : statements ≠ []) (h : Reads depth rows statements) :
    definition? (arrange (⟨0, .reserved "def" :: .name f :: .opening :: tokens⟩ :: rows)) =
      some ⟨f, params, statements⟩ := by
  obtain ⟨blocks, harrange, hinner, hstatements⟩ := h [] (by simp [arrange])
  rw [List.append_nil] at harrange
  rw [arrange_cons _ harrange (fun block hblock => (hinner block hblock).symm ▸ hdepth)
    (by simp [arrange])]
  cases blocks with
  | nil => exact absurd (Option.some.inj hstatements).symm hne
  | cons first others =>
    have hfirst := hinner first List.mem_cons_self
    simp [arrange, definition?, hparams, hfirst, hstatements]

end Script

namespace Program

open Text Script

/-! Expressions -/

def Term.tree : Term → Expression
  | .name x => .name x.text
  | .constant c => .number c.value
  | .mask t c => .binary .conjunction t.tree (.number c.value)
  | .left t distance => .binary .left t.tree (.number distance)
  | .right t distance => .binary .right t.tree (.number distance)

def Expr.tree : Expr → Expression
  | .union terms => unionOf (terms.map Term.tree)
  | .bounded terms c => .binary .conjunction (unionOf (terms.map Term.tree)) (.number c.value)
  | .test x c =>
    .binary .differs (.binary .conjunction (.name x.text) (.number c.value)) (.number 0)

/-- A reserved word has several characters, none of them an underscore. -/
theorem keywords_form : ∀ k ∈ keywords, 1 < k.toList.length ∧ '_' ∉ k.toList := by
  simp [keywords]

theorem Name.isFreeName_text (x : Name) : isFreeName x.text = true := by
  have hnumbered {stem : String} (hstem : '_' ∈ stem.toList) (index : Nat) :
      stem ++ decimalNat index ∉ keywords := by
    intro hmem
    refine (keywords_form _ hmem).2 ?_
    rw [String.toList_append]
    exact List.mem_append_left _ hstem
  rw [isFreeName_iff]
  cases x with
  | value => decide
  | target => decide
  | letter a =>
    refine ⟨?_, fun hmem => ?_⟩
    · simpa [isIdentifier, text, Letter.text] using isNameStart_of_isAlpha a.isAlpha
    · simpa [text, Letter.text] using (keywords_form _ hmem).1
  | input index =>
    exact ⟨isIdentifier_append_decimalNat (by decide) index, hnumbered (by decide) index⟩
  | saturated index =>
    exact ⟨isIdentifier_append_decimalNat (by decide) index, hnumbered (by decide) index⟩

theorem Name.spells_text (x : Name) : Spells x.text [.operand (.name x.text)] :=
  spells_name x.isFreeName_text

theorem Constant.spells_text (c : Constant) : Spells c.text [.operand (.number c.value)] :=
  spells_fixedHex (by simpa [Nat.one_shiftLeft] using c.fits)

/-- A binary expression in parentheses. -/
theorem spells_binary {s t : String} {left right : Expression} (g : Sign)
    (h : Spells s [.operand left]) (h' : Spells t [.operand right]) :
    Spells ("(" ++ s ++ g.mark ++ t ++ ")") [.operand (.binary g left right)] := by
  simpa [String.append_assoc] using (denotes_binary g h h').enclosed

theorem Term.spells_text (t : Term) : Spells t.text [.operand t.tree] := by
  induction t with
  | name x => exact x.spells_text
  | constant c => exact c.spells_text
  | mask t c ih => exact spells_binary .conjunction ih c.spells_text
  | left t distance ih => exact spells_binary .left ih (spells_decimalNat distance)
  | right t distance ih => exact spells_binary .right ih (spells_decimalNat distance)

theorem denotes_unionText (terms : List Term) :
    Denotes (unionText terms) (unionOf (terms.map Term.tree)) := by
  cases terms with
  | nil => exact (spells_decimalNat 0).denotes
  | cons t terms => exact denotes_union (List.cons_ne_nil t terms) fun u _ => u.spells_text

theorem Expr.denotes_text (e : Expr) : Denotes e.text e.tree := by
  cases e with
  | union terms => exact denotes_unionText terms
  | bounded terms c =>
    have h := denotes_binary .conjunction (denotes_unionText terms).enclosed c.spells_text
    simpa [text, tree, Sign.mark, String.append_assoc] using h
  | test x c =>
    have h := denotes_binary .differs (spells_binary .conjunction x.spells_text c.spells_text)
      (spells_decimalNat 0)
    have hzero : decimalNat 0 = "0" := rfl
    simpa [text, tree, hzero, Sign.mark, String.append_assoc] using h

def Return.tree : Return → Expression
  | .value e => e.tree
  | .tuple items => .tuple (items.map Expr.tree)
  | .record name items => .call name (items.map Expr.tree)

theorem Return.exists_tokens (result : Return)
    (h : ∀ r, result.record? = some r → isFreeName r = true) :
    ∃ tokens, Lexes result.text tokens ∧ expression? tokens = some result.tree := by
  cases result with
  | value e => exact e.denotes_text.exists_tokens
  | tuple items =>
    have hspells : Spells (tupleText (items.map Expr.text))
        [.operand (.tuple (items.map Expr.tree))] := by
      by_cases hlength : items.length = 1
      · obtain ⟨e, rfl⟩ := List.length_eq_one_iff.mp hlength
        exact spells_single e.denotes_text
      · have hpair := spells_pair items hlength fun e _ => e.denotes_text
        match items with
        | [] => exact hpair
        | [e] => exact absurd rfl hlength
        | e :: e' :: items => exact hpair
    exact hspells.denotes.exists_tokens
  | record name items =>
    obtain ⟨tokens, hlexes, htree⟩ := exists_call (h name rfl)
      (items.map fun e => (e.text, e.tree)) (by simp [Expr.denotes_text])
    rw [List.map_map] at hlexes htree
    exact ⟨_, hlexes, htree⟩

/-! Steps -/

def Step.statement : Step → Statement
  | .refuse x field limit =>
    .check (.binary .above (.name x.text) (.number limit.value))
      [.perform (.call "overflow" [.text field.text, .name x.text, .number limit.width])]
  | .clamp x source limit =>
    .assign x.text (.call "min" [.name source.text, .number limit.value])
  | .assign x e => .assign x.text e.tree

theorem Name.fills_assignment (x : Name) {code : String} {tokens : List Token}
    (h : Lexes code tokens) :
    Fills (x.text ++ " = " ++ code) (.name x.text :: .equals :: tokens) := by
  have hequals : Marks " = " [.equals] := marks_sign (w := ['=']) rfl rfl
  have hlexes := (lexes_name x.isFreeName_text).mark hequals h
  rw [String.append_assoc] at hlexes ⊢
  exact fills_of_isIdentifier (isFreeName_iff.mp x.isFreeName_text).1 hlexes (by simp)

theorem Name.extends_assignment (x : Name) (l : Listing) {code : String} {tokens : List Token}
    {t : Expression} (h : Lexes code tokens) (ht : expression? tokens = some t) :
    Extends l (l.append (x.text ++ " = " ++ code)) [.assign x.text t] := by
  refine extends_append l (x.fills_assignment h) (reads_simple ?_)
  rw [simple?, ht, Option.map_some]

/-- The line that tests a value. -/
theorem fills_test (x : Name) (limit : Constant) :
    ∃ tokens, Fills ("if " ++ x.text ++ " > " ++ limit.text ++ ":") (.reserved "if" :: tokens) ∧
      condition? tokens = some (.binary .above (.name x.text) (.number limit.value)) := by
  obtain ⟨tokens, hlexes, htree⟩ :=
    (denotes_binary .above x.spells_text limit.spells_text).exists_tokens
  refine ⟨tokens ++ [.colon], ?_, by simp [condition?, htree]⟩
  have htext : "if " ++ x.text ++ " > " ++ limit.text ++ ":" =
      "if" ++ " " ++ (x.text ++ Sign.above.mark ++ limit.text ++ ":") := by
    have hmark : "if " = "if" ++ " " := rfl
    rw [hmark]
    simp only [Sign.mark, String.append_assoc]
  rw [htext]
  exact fills_reserved "if" (by decide) (by decide)
    (hlexes.append_mark (marks_point (s := ":") rfl rfl))

/-- The line that refuses a value. -/
theorem fills_refusal (x : Name) (field : Letter) (width : Nat) :
    ∃ tokens, Fills ("overflow(" ++ field.quoted ++ ", " ++ x.text ++ ", " ++ decimalNat width ++
        ")") tokens ∧
      simple? tokens = some (.perform
        (.call "overflow" [.text field.text, .name x.text, .number width])) := by
  obtain ⟨tokens, hlexes, hcall⟩ := exists_call (f := "overflow") (by decide)
    [(field.quoted, .text field.text), (x.text, .name x.text), (decimalNat width, .number width)]
    (by simp [(spells_quoted field).denotes, x.spells_text.denotes,
      (spells_decimalNat width).denotes])
  refine ⟨.name "overflow" :: .opening :: tokens, ?_, ?_⟩
  · have htext : "overflow(" ++ field.quoted ++ ", " ++ x.text ++ ", " ++ decimalNat width ++ ")" =
        "overflow" ++
          ("(" ++ (", ".intercalate [field.quoted, x.text, decimalNat width] ++ ")")) := by
      have hmark : "overflow(" = "overflow" ++ "(" := rfl
      rw [hmark]
      simp only [String.append_assoc, String.intercalate_cons_cons, String.intercalate_singleton]
    rw [htext]
    rw [String.append_assoc, String.append_assoc] at hlexes
    exact fills_of_isIdentifier (by decide) hlexes (by simp)
  · rw [simple?, hcall]
    · rfl
    all_goals simp

/-- A step goes on with its statement. -/
theorem Step.extends_write (step : Step) (l : Listing) :
    Extends l (step.write l) [step.statement] := by
  cases step with
  | refuse x field limit =>
    obtain ⟨tokens, htest, hcondition⟩ := fills_test x limit
    obtain ⟨tokens', hrefusal, hperform⟩ := fills_refusal x field limit.width
    have hreads := reads_check (show 4 * l.level < 4 * (l.level + 1) by omega) hcondition
      (List.cons_ne_nil _ _) (reads_simple hperform)
    refine ⟨rfl, _, _, ?_,
      (holds_line htest l.level).append (holds_line hrefusal (l.level + 1)), hreads⟩
    simp only [write, Listing.append, Listing.indent, Listing.dedent, String.append_assoc]
  | clamp x source limit =>
    obtain ⟨tokens, hlexes, hcall⟩ := exists_call (f := "min") (by decide)
      [(source.text, .name source.text), (limit.text, .number limit.value)]
      (by simp [source.spells_text.denotes, limit.spells_text.denotes])
    have htext : x.text ++ " = min(" ++ source.text ++ ", " ++ limit.text ++ ")" =
        x.text ++ " = " ++
          ("min" ++ "(" ++ ", ".intercalate [source.text, limit.text] ++ ")") := by
      have hmark : " = min(" = " = " ++ "min" ++ "(" := rfl
      rw [hmark]
      simp only [String.append_assoc, String.intercalate_cons_cons, String.intercalate_singleton]
    rw [write, htext]
    exact x.extends_assignment l hlexes hcall
  | assign x e =>
    obtain ⟨tokens, hlexes, htree⟩ := e.denotes_text.exists_tokens
    exact x.extends_assignment l hlexes htree

theorem Step.extends_foldl_write (steps : List Step) (l : Listing) :
    Extends l (steps.foldl write l) (steps.map statement) := by
  induction steps generalizing l with
  | nil => exact extends_refl l
  | cons step steps ih => exact (step.extends_write l).trans (ih (step.write l))

namespace Function

/-- What a function is written for. -/
def definition (f : Function) : Definition where
  name := f.name
  params := f.params.map Name.text
  body := f.steps.map Step.statement ++ [.give f.result.tree]

theorem params?_names (params : List String) :
    params? ([Token.comma].intercalate (params.map fun x => [.name x]) ++ [.closing, .colon]) =
      some params := by
  induction params with
  | nil => rfl
  | cons x params ih =>
    cases params with
    | nil => rfl
    | cons y params =>
      simp only [List.map_cons] at ih ⊢
      rw [List.intercalate_cons_cons, List.append_assoc, List.append_assoc, List.singleton_append,
        List.singleton_append, params?, ih, Option.map_some]

/-- The line with the parameters. -/
theorem fills_header (f : Function) (h : isFreeName f.name = true) :
    ∃ tokens, Fills f.header (.reserved "def" :: .name f.name :: .opening :: tokens) ∧
      params? tokens = some (f.params.map Name.text) := by
  have hparams := Lexes.intercalate marks_comma f.params
    fun x _ => lexes_name x.isFreeName_text
  refine ⟨_, ?_, params?_names _⟩
  have hend := (marks_point (s := ")") rfl rfl).append_marks (marks_point (s := ":") rfl rfl)
  have hlexes := ((lexes_name h).mark (marks_point (s := "(") rfl rfl) hparams).append_mark hend
  have htext : f.header = "def" ++ " " ++
      (f.name ++ "(" ++ ", ".intercalate (f.params.map Name.text) ++ (")" ++ ":")) := by
    have hmark : "def " = "def" ++ " " := rfl
    have hclose : "):" = ")" ++ ":" := rfl
    rw [header, hmark, hclose]
    simp only [String.append_assoc]
  rw [htext, List.map_map]
  exact fills_reserved "def" (by decide) (by decide) hlexes

/-- The text of a function is read as its definition. -/
theorem read?_text (f : Function) (h : isFreeName f.name = true)
    (hrecord : ∀ r, f.result.record? = some r → isFreeName r = true) :
    read? f.text = some f.definition := by
  obtain ⟨tokens, hheader, hparams⟩ := f.fills_header h
  obtain ⟨tokens', hlexes, hresult⟩ := f.result.exists_tokens hrecord
  let l : Listing := (({} : Listing).append f.header).indent
  have hsteps := Step.extends_foldl_write f.steps l
  have hgive : simple? (.reserved "return" :: tokens') = some (.give f.result.tree) := by
    rw [simple?, if_pos rfl, hresult, Option.map_some]
  have hreturn := extends_append (f.steps.foldl Step.write l)
    (fills_reserved "return" (by decide) (by decide) hlexes) (reads_simple hgive)
  obtain ⟨_, text, rows, htext, hholds, hreads⟩ := hsteps.trans hreturn
  have hall := ((holds_line hheader 0).append hholds).rows?_eq
  have hwhole : f.text = Listing.indentation 0 ++ f.header ++ "\n" ++ text := htext
  rw [read?, hwhole, hall, Option.bind_some]
  exact definition?_arrange (show 0 < 4 * (0 + 1) by decide) hparams (by simp) hreads

end Function

end Program

end BitTemplate
