import BitTemplate.Proofs.Tokens
import Mathlib.Data.List.Induction

/-!
Writing expressions and reading them. Tokens add some pieces to those read before, with every
parenthesis closed, and a text spells the pieces that its tokens add. Putting a sign or a comma
between two texts puts it between their pieces, and a text in parentheses spells one operand. Signs
of one kind bind from the left, so that a union of operands is read as a tree that grows to the
left; and between commas each expression is read on its own.
-/
namespace BitTemplate.Script

open Text

/-! Adding pieces -/

/-- A parenthesis may come next that does not hold arguments. -/
def State.Fresh (state : State) : Prop := ∀ t, state.pieces.head? ≠ some (.operand t)

/-- Tokens that add some pieces, wherever an operand may stand. -/
def Adds (tokens : List Token) (pieces : List Piece) : Prop :=
  ∀ state : State, state.Fresh →
    tokens.foldlM step? state = some ⟨pieces.reverse ++ state.pieces, state.outer⟩

theorem adds_nil : Adds [] [] := fun _ _ => rfl

theorem step?_piece {token : Token} {piece : Piece} (h : piece? token = some piece)
    (state : State) : step? state token = some ⟨piece :: state.pieces, state.outer⟩ := by
  cases token <;> cases h <;> rfl

theorem adds_piece {token : Token} {piece : Piece} (h : piece? token = some piece) :
    Adds [token] [piece] := by
  intro state _
  rw [List.foldlM_cons, step?_piece h]
  rfl

theorem close?_of_fresh {inner before : List Piece} {t : Expression}
    (h : ∀ u, before.head? ≠ some (.operand u)) (ht : group? inner.reverse = some t) :
    close? inner before = some (.operand t :: before) := by
  unfold close?
  split
  · rename_i f before
    exact absurd rfl (h (.name f))
  · rw [ht, Option.map_some]

namespace Adds

variable {tokens tokens' : List Token} {pieces pieces' : List Piece}

/-- What stands between two operands stands between what they add. -/
theorem between (h : Adds tokens pieces) (h' : Adds tokens' pieces') {token : Token} {piece : Piece}
    (htoken : piece? token = some piece) (hpiece : ∀ t, piece ≠ .operand t) :
    Adds (tokens ++ token :: tokens') (pieces ++ piece :: pieces') := by
  intro state hstate
  have hfresh : State.Fresh ⟨piece :: (pieces.reverse ++ state.pieces), state.outer⟩ := by
    intro t ht
    exact hpiece t (Option.some.inj ht)
  rw [List.foldlM_append, h state hstate, Option.bind_eq_bind, Option.bind_some, List.foldlM_cons,
    step?_piece htoken, Option.bind_eq_bind, Option.bind_some, h' _ hfresh]
  simp

/-- A pair of parentheses is closed after what is between. -/
theorem foldlM_parentheses (h : Adds tokens pieces) {before after : List Piece}
    (hclose : close? pieces.reverse before = some after) (outer : List (List Piece)) :
    (Token.opening :: (tokens ++ [.closing])).foldlM step? ⟨before, outer⟩ =
      some ⟨after, outer⟩ := by
  have hopening : step? ⟨before, outer⟩ .opening = some ⟨[], before :: outer⟩ := rfl
  have hinner : tokens.foldlM step? ⟨[], before :: outer⟩ =
      some ⟨pieces.reverse, before :: outer⟩ := by
    simpa using h ⟨[], before :: outer⟩ (by simp [State.Fresh])
  have hclosing : step? ⟨pieces.reverse, before :: outer⟩ .closing = some ⟨after, outer⟩ := by
    simp [step?, hclose]
  rw [List.foldlM_cons, hopening, Option.bind_eq_bind, Option.bind_some, List.foldlM_append, hinner,
    Option.bind_eq_bind, Option.bind_some, List.foldlM_cons, hclosing]
  rfl

theorem enclosed {t : Expression} (h : Adds tokens pieces) (ht : group? pieces = some t) :
    Adds (.opening :: (tokens ++ [.closing])) [.operand t] := by
  intro state hstate
  refine h.foldlM_parentheses (close?_of_fresh hstate ?_) state.outer
  rw [List.reverse_reverse, ht]

theorem call {arguments : List Expression} (h : Adds tokens pieces)
    (ht : items? pieces = some arguments) (f : String) :
    Adds (.name f :: .opening :: (tokens ++ [.closing])) [.operand (.call f arguments)] := by
  intro state _
  rw [List.foldlM_cons, step?_piece rfl, Option.bind_eq_bind, Option.bind_some]
  refine h.foldlM_parentheses ?_ state.outer
  rw [close?, List.reverse_reverse, ht, Option.map_some]
  rfl

/-- All tokens of an expression. -/
theorem expression?_eq (h : Adds tokens pieces) (hne : pieces ≠ []) :
    expression? tokens = group? pieces := by
  have hall := h ⟨[], []⟩ (by simp [State.Fresh])
  rw [List.append_nil] at hall
  rw [expression?, hall, Option.bind_some, if_pos (by simpa using hne), List.reverse_reverse]

end Adds

/-! Reading pieces -/

/-- Pieces without some signs. -/
def Without (signs : List Sign) (pieces : List Piece) : Prop := ∀ s ∈ signs, .sign s ∉ pieces

theorem separate_of_without {signs : List Sign} {pieces : List Piece} (h : Without signs pieces) :
    separate signs pieces = (pieces, []) := by
  induction pieces with
  | nil => rfl
  | cons piece rest ih =>
    have hrest : Without signs rest := fun s hs hmem => h s hs (List.mem_cons_of_mem _ hmem)
    cases piece with
    | sign s =>
      have hs : s ∉ signs := fun hs => h s hs List.mem_cons_self
      rw [separate, if_neg hs, ih hrest]
    | operand t => rw [separate, ih hrest]; simp
    | comma => rw [separate, ih hrest]; simp

/-- What comes after the last of some signs is the last part. -/
theorem separate_concat {signs : List Sign} (pieces : List Piece) {s : Sign} (hs : s ∈ signs)
    {last : List Piece} (h : Without signs last) :
    separate signs (pieces ++ .sign s :: last) =
      ((separate signs pieces).1, (separate signs pieces).2 ++ [(s, last)]) := by
  induction pieces with
  | nil => simp [separate, hs, separate_of_without h]
  | cons piece rest ih =>
    rw [List.cons_append]
    cases piece with
    | sign s' =>
      rw [separate, separate, ih]
      split <;> rfl
    | operand t => rw [separate, separate, ih] <;> simp
    | comma => rw [separate, separate, ih] <;> simp

/-- The last of several signs binds last. -/
theorem chain?_concat {signs : List Sign} (read : List Piece → Option Expression)
    (pieces : List Piece) {s : Sign} (hs : s ∈ signs) {last : List Piece} (h : Without signs last) :
    chain? signs read (pieces ++ .sign s :: last) =
      (chain? signs read pieces).bind fun t => (read last).map (.binary s t) := by
  rw [chain?, separate_concat pieces hs h, List.foldl_append]
  rfl

/-- Operands with the sign of union between them. -/
def united : List Expression → List Piece
  | [] => []
  | t :: trees => .operand t :: trees.flatMap fun u => [.sign .union, .operand u]

theorem intercalate_union (trees : List Expression) :
    [Piece.sign .union].intercalate (trees.map fun t => [.operand t]) = united trees := by
  induction trees with
  | nil => rfl
  | cons t trees ih =>
    cases trees with
    | nil => rfl
    | cons u trees =>
      simp only [List.map_cons] at ih ⊢
      rw [List.intercalate_cons_cons, ih]
      rfl

/-- The tree of a union, which grows to the left. It is zero if nothing is united. -/
def unionOf : List Expression → Expression
  | [] => .number 0
  | t :: trees => trees.foldl (.binary .union) t

theorem united_concat {trees : List Expression} (h : trees ≠ []) (t : Expression) :
    united (trees ++ [t]) = united trees ++ [.sign .union, .operand t] := by
  obtain ⟨u, trees, rfl⟩ := List.exists_cons_of_ne_nil h
  rw [List.cons_append, united, united, List.flatMap_append]
  rfl

theorem unionOf_concat {trees : List Expression} (h : trees ≠ []) (t : Expression) :
    unionOf (trees ++ [t]) = .binary .union (unionOf trees) t := by
  obtain ⟨u, trees, rfl⟩ := List.exists_cons_of_ne_nil h
  rw [List.cons_append, unionOf, List.foldl_append]
  rfl

theorem union?_united {trees : List Expression} (h : trees ≠ []) :
    union? (united trees) = some (unionOf trees) := by
  induction trees using List.reverseRecOn with
  | nil => exact absurd rfl h
  | append_singleton trees t ih =>
    cases trees with
    | nil => rfl
    | cons u trees =>
      have hne : u :: trees ≠ [] := List.cons_ne_nil u trees
      have hlast : Without [.union] [.operand t] := by simp [Without]
      rw [united_concat hne, unionOf_concat hne, union?, chain?_concat _ _ (by simp) hlast]
      change (union? (united (u :: trees))).bind _ = _
      rw [ih hne]
      rfl

/-- Pieces that are read as an expression, also between commas. -/
structure Item (pieces : List Piece) (t : Expression) : Prop where
  reads : comparison? pieces = some t
  closed : ∀ piece ∈ pieces, piece.isComma = false

namespace Item

variable {pieces : List Piece} {t : Expression}

theorem ne_nil (h : Item pieces t) : pieces ≠ [] := by
  rintro rfl
  exact nomatch h.reads

theorem group?_eq (h : Item pieces t) : group? pieces = some t := by
  have hcomma : (pieces.isEmpty || pieces.any Piece.isComma) = false := by
    rw [Bool.or_eq_false_iff]
    exact ⟨by simpa using h.ne_nil, by simpa using h.closed⟩
  rw [group?, hcomma, if_neg (by decide), h.reads]

end Item

theorem item_operand (t : Expression) : Item [.operand t] t := ⟨rfl, by simp [Piece.isComma]⟩

theorem item_binary (s : Sign) (t u : Expression) :
    Item [.operand t, .sign s, .operand u] (.binary s t u) := by
  refine ⟨?_, by simp [Piece.isComma]⟩
  cases s <;> rfl

theorem mem_united {trees : List Expression} {piece : Piece} (h : piece ∈ united trees) :
    piece = .sign .union ∨ ∃ t, piece = .operand t := by
  cases trees with
  | nil => cases h
  | cons t trees =>
    simp only [united, List.mem_cons, List.mem_flatMap, List.not_mem_nil, or_false] at h
    rcases h with rfl | ⟨u, _, rfl | rfl⟩
    · exact .inr ⟨t, rfl⟩
    · exact .inl rfl
    · exact .inr ⟨u, rfl⟩

theorem item_united {trees : List Expression} (h : trees ≠ []) :
    Item (united trees) (unionOf trees) := by
  have hsigns : Without [.above, .differs] (united trees) := by
    intro s hs hmem
    rcases mem_united hmem with heq | ⟨t, heq⟩
    · cases heq
      simp at hs
    · cases heq
  refine ⟨?_, ?_⟩
  · rw [comparison?, separate_of_without hsigns]
    exact union?_united h
  · intro piece hpiece
    rcases mem_united hpiece with rfl | ⟨t, rfl⟩ <;> rfl

/-- Commas part what is between them. -/
theorem splitOnP_commas {parts : List (List Piece)} (hne : parts ≠ [])
    (h : ∀ part ∈ parts, ∀ piece ∈ part, piece.isComma = false) :
    ([Piece.comma].intercalate parts).splitOnP Piece.isComma = parts := by
  induction parts with
  | nil => exact absurd rfl hne
  | cons part parts ih =>
    rw [List.forall_mem_cons] at h
    cases parts with
    | nil => simpa using List.splitOnP_eq_singleton h.1
    | cons next parts =>
      rw [List.intercalate_cons_cons, List.append_assoc, List.singleton_append,
        List.splitOnP_append_cons _ _ rfl, ih (List.cons_ne_nil _ _) h.2,
        List.splitOnP_eq_singleton h.1]
      rfl

theorem mapM_of_items {α : Type} {pieces : α → List Piece} {tree : α → Expression}
    (items : List α) (h : ∀ a ∈ items, Item (pieces a) (tree a)) :
    (items.map pieces).mapM comparison? = some (items.map tree) := by
  induction items with
  | nil => rfl
  | cons a items ih =>
    rw [List.forall_mem_cons] at h
    rw [List.map_cons, List.mapM_cons, h.1.reads, ih h.2]
    rfl

theorem items?_of_items {α : Type} {pieces : α → List Piece} {tree : α → Expression}
    (items : List α) (h : ∀ a ∈ items, Item (pieces a) (tree a)) :
    items? ([Piece.comma].intercalate (items.map pieces)) = some (items.map tree) := by
  cases items with
  | nil => rfl
  | cons a items =>
    have hparts : ∀ part ∈ (a :: items).map pieces,
        part ≠ [] ∧ ∀ piece ∈ part, piece.isComma = false := by
      rw [List.forall_mem_map]
      exact fun b hb => ⟨(h b hb).ne_nil, (h b hb).closed⟩
    have hsplit := splitOnP_commas (by simp) fun part hpart => (hparts part hpart).2
    have hempty : ([Piece.comma].intercalate ((a :: items).map pieces)).isEmpty = false := by
      rw [List.isEmpty_eq_false_iff]
      intro hnil
      rw [hnil, List.splitOnP_nil] at hsplit
      exact (hparts [] (hsplit ▸ List.mem_singleton_self [])).1 rfl
    have hlast : ((a :: items).map pieces).getLast?.any List.isEmpty = false := by
      rw [Option.any_eq_false]
      intro part hpart
      simpa using (hparts part (List.mem_of_getLast? hpart)).1
    rw [items?, hempty, if_neg (by decide)]
    simp only [hsplit, hlast]
    exact mapM_of_items (a :: items) h

/-- A single item may have a comma after it. -/
theorem items?_comma {pieces : List Piece} {t : Expression} (h : Item pieces t) :
    items? (pieces ++ [.comma]) = some [t] := by
  have hsplit : (pieces ++ [Piece.comma]).splitOnP Piece.isComma = [pieces, []] := by
    rw [List.splitOnP_append_cons _ _ rfl, List.splitOnP_eq_singleton h.closed]
    rfl
  rw [items?, if_neg (by simp), hsplit]
  simp [h.reads]

/-! Spelling -/

/-- A text whose tokens add some pieces. -/
def Spells (s : String) (pieces : List Piece) : Prop :=
  ∃ tokens, Lexes s tokens ∧ Adds tokens pieces

/-- A text that is read as an expression, also between commas. -/
def Denotes (s : String) (t : Expression) : Prop := ∃ pieces, Spells s pieces ∧ Item pieces t

theorem spells_nil : Spells "" [] := by
  refine ⟨[], ?_, adds_nil⟩
  intro rest _
  simp

theorem spells_token {s : String} {token : Token} {piece : Piece} (h : Lexes s [token])
    (hpiece : piece? token = some piece) : Spells s [piece] :=
  ⟨[token], h, adds_piece hpiece⟩

theorem spells_name {s : String} (h : isFreeName s = true) : Spells s [.operand (.name s)] :=
  spells_token (lexes_name h) rfl

theorem spells_decimalNat (n : Nat) : Spells (decimalNat n) [.operand (.number n)] :=
  spells_token (lexes_decimalNat n) rfl

theorem spells_fixedHex {n width : Nat} (h : n < 2 ^ width) :
    Spells (fixedHex n width) [.operand (.number n)] :=
  spells_token (lexes_fixedHex h) rfl

theorem spells_quoted (a : Letter) : Spells a.quoted [.operand (.text a.text)] :=
  spells_token (marks_quoted a).toLexes rfl

namespace Spells

variable {s t mark : String} {pieces pieces' : List Piece}

theorem between {token : Token} {piece : Piece} (hmark : Marks mark [token])
    (htoken : piece? token = some piece) (hpiece : ∀ t, piece ≠ .operand t)
    (h : Spells s pieces) (h' : Spells t pieces') :
    Spells (s ++ mark ++ t) (pieces ++ piece :: pieces') := by
  obtain ⟨tokens, hlexes, hadds⟩ := h
  obtain ⟨tokens', hlexes', hadds'⟩ := h'
  refine ⟨tokens ++ token :: tokens', ?_, hadds.between hadds' htoken hpiece⟩
  simpa using hlexes.mark hmark hlexes'

theorem intercalate {token : Token} {piece : Piece} (hmark : Marks mark [token])
    (htoken : piece? token = some piece) (hpiece : ∀ t, piece ≠ .operand t) {α : Type}
    {text : α → String} {piecesOf : α → List Piece} (items : List α)
    (h : ∀ a ∈ items, Spells (text a) (piecesOf a)) :
    Spells (mark.intercalate (items.map text)) ([piece].intercalate (items.map piecesOf)) := by
  induction items with
  | nil => simpa using spells_nil
  | cons a items ih =>
    rw [List.forall_mem_cons] at h
    cases items with
    | nil => simpa using h.1
    | cons b items =>
      simp only [List.map_cons] at ih ⊢
      rw [String.intercalate_cons_cons, List.intercalate_cons_cons, List.append_assoc]
      exact between hmark htoken hpiece h.1 (ih h.2)

theorem enclosed (h : Spells s pieces) {t : Expression} (ht : group? pieces = some t) :
    Spells ("(" ++ s ++ ")") [.operand t] := by
  obtain ⟨tokens, hlexes, hadds⟩ := h
  refine ⟨.opening :: (tokens ++ [.closing]), ?_, hadds.enclosed ht⟩
  have hopening := (marks_point (s := "(") rfl rfl).append hlexes
  exact hopening.append_mark (marks_point rfl rfl)

/-- A call starts with the name and an open parenthesis. -/
theorem call (h : Spells s pieces) {arguments : List Expression}
    (ht : items? pieces = some arguments) {f : String} (hf : isFreeName f = true) :
    ∃ tokens, Lexes (f ++ "(" ++ s ++ ")") (.name f :: .opening :: tokens) ∧
      Adds (.name f :: .opening :: tokens) [.operand (.call f arguments)] := by
  obtain ⟨tokens, hlexes, hadds⟩ := h
  refine ⟨tokens ++ [.closing], ?_, hadds.call ht f⟩
  have hopening := (lexes_name hf).mark (marks_point (s := "(") rfl rfl) hlexes
  exact hopening.append_mark (marks_point rfl rfl)

theorem denotes {t : Expression} (h : Spells s [.operand t]) : Denotes s t :=
  ⟨[.operand t], h, item_operand t⟩

end Spells

/-- The sign with a space on either side. -/
def Sign.mark : Sign → String
  | .union => " | "
  | .conjunction => " & "
  | .left => " << "
  | .right => " >> "
  | .above => " > "
  | .differs => " != "

theorem Sign.marks_mark (g : Sign) : Marks g.mark [.sign g] := by
  cases g with
  | union => exact marks_sign (w := ['|']) rfl rfl
  | conjunction => exact marks_sign (w := ['&']) rfl rfl
  | left => exact marks_sign (w := ['<', '<']) rfl rfl
  | right => exact marks_sign (w := ['>', '>']) rfl rfl
  | above => exact marks_sign (w := ['>']) rfl rfl
  | differs => exact marks_sign (w := ['!', '=']) rfl rfl

theorem denotes_binary {s s' : String} {t u : Expression} (g : Sign)
    (h : Spells s [.operand t]) (h' : Spells s' [.operand u]) :
    Denotes (s ++ g.mark ++ s') (.binary g t u) :=
  ⟨_, h.between g.marks_mark rfl (by simp) h', item_binary g t u⟩

/-- A union of operands. -/
theorem denotes_union {α : Type} {text : α → String} {tree : α → Expression} {items : List α}
    (hne : items ≠ []) (h : ∀ a ∈ items, Spells (text a) [.operand (tree a)]) :
    Denotes (" | ".intercalate (items.map text)) (unionOf (items.map tree)) := by
  refine ⟨united (items.map tree), ?_, item_united (by simpa using hne)⟩
  rw [← intercalate_union, List.map_map]
  exact Spells.intercalate Sign.union.marks_mark rfl (by simp) items h

namespace Denotes

variable {s : String} {t : Expression}

theorem enclosed (h : Denotes s t) : Spells ("(" ++ s ++ ")") [.operand t] := by
  obtain ⟨pieces, hspells, hitem⟩ := h
  exact hspells.enclosed hitem.group?_eq

/-- The expression of a line. -/
theorem exists_tokens (h : Denotes s t) :
    ∃ tokens, Lexes s tokens ∧ expression? tokens = some t := by
  obtain ⟨pieces, ⟨tokens, hlexes, hadds⟩, hitem⟩ := h
  exact ⟨tokens, hlexes, (hadds.expression?_eq hitem.ne_nil).trans hitem.group?_eq⟩

end Denotes

section Items

variable {α : Type} {text : α → String} {tree : α → Expression}

/-- Expressions with commas between them. -/
theorem exists_items (items : List α) (h : ∀ a ∈ items, Denotes (text a) (tree a)) :
    ∃ pieces : α → List Piece, (∀ a ∈ items, Item (pieces a) (tree a)) ∧
      Spells (", ".intercalate (items.map text))
        ([Piece.comma].intercalate (items.map pieces)) := by
  choose! pieces hspells hitem using h
  exact ⟨pieces, hitem, Spells.intercalate marks_comma rfl (by simp) items hspells⟩

theorem exists_call {f : String} (hf : isFreeName f = true) (arguments : List (String × Expression))
    (h : ∀ pair ∈ arguments, Denotes pair.1 pair.2) :
    ∃ tokens, Lexes (f ++ "(" ++ ", ".intercalate (arguments.map Prod.fst) ++ ")")
        (.name f :: .opening :: tokens) ∧
      expression? (.name f :: .opening :: tokens) = some (.call f (arguments.map Prod.snd)) := by
  obtain ⟨pieces, hitems, hspells⟩ := exists_items arguments h
  obtain ⟨tokens, hlexes, hadds⟩ := hspells.call (items?_of_items arguments hitems) hf
  refine ⟨tokens, hlexes, ?_⟩
  rw [hadds.expression?_eq (by simp), (item_operand _).group?_eq]

theorem spells_pair (items : List α) (hlength : items.length ≠ 1)
    (h : ∀ a ∈ items, Denotes (text a) (tree a)) :
    Spells ("(" ++ ", ".intercalate (items.map text) ++ ")")
      [.operand (.tuple (items.map tree))] := by
  obtain ⟨pieces, hitems, hspells⟩ := exists_items items h
  refine hspells.enclosed ?_
  rw [group?, if_pos ?_, items?_of_items items hitems, Option.map_some]
  match items with
  | [] => rfl
  | [a] => exact absurd rfl hlength
  | a :: b :: items => simp [List.intercalate_cons_cons, Piece.isComma]

/-- A comma makes a tuple of one item. -/
theorem spells_single {s : String} {t : Expression} (h : Denotes s t) :
    Spells ("(" ++ s ++ ",)") [.operand (.tuple [t])] := by
  obtain ⟨pieces, hspells, hitem⟩ := h
  have hcomma := hspells.between (marks_point (s := ",") rfl rfl) rfl (by simp) spells_nil
  have hgroup : group? (pieces ++ [.comma]) = some (.tuple [t]) := by
    rw [group?, if_pos (by simp [Piece.isComma]), items?_comma hitem, Option.map_some]
  have htext : "(" ++ s ++ ",)" = "(" ++ (s ++ "," ++ "") ++ ")" := by
    rw [String.append_empty, String.append_assoc, String.append_assoc, String.append_assoc]
    rfl
  rw [htext]
  exact hcomma.enclosed hgroup

end Items

end BitTemplate.Script
