import BitTemplate.Proofs.Comments
import BitTemplate.Text.Identifier
import Mathlib.Data.List.TakeWhile

/-!
Reading code. A line is split into tokens: names, reserved words, numbers, quoted texts and signs.
An expression is read from its tokens by one pass that keeps a stack of open parentheses. What
stands between two parentheses is read by splitting it at its loosest signs first: at commas, then
at comparisons, then at unions, then at conjunctions, then at shifts, where equal signs bind from
the left. Lines that are indented deeper than a line belong to it. A script is a single definition
of a function at the outermost depth.
-/
namespace BitTemplate.Script

open Text

/-- The signs between two operands. -/
inductive Sign where
  | union
  | conjunction
  | left
  | right
  | above
  | differs
  deriving DecidableEq

inductive Token where
  | name (s : String)
  | reserved (s : String)
  | number (n : Nat)
  | text (s : String)
  | sign (s : Sign)
  | opening
  | closing
  | comma
  | colon
  | equals

/-! Tokens -/

/-- The value of a digit, of sixteen at most. -/
def digit? (c : Char) : Option Nat :=
  if c.isDigit then some (c.toNat - 48)
  else if 'a' ≤ c ∧ c ≤ 'f' then some (c.toNat - 87)
  else if 'A' ≤ c ∧ c ≤ 'F' then some (c.toNat - 55)
  else none

/-- The number that some digits write in a radix. -/
def numberIn? (radix : Nat) (digits : List Char) : Option Nat :=
  digits.foldlM
    (fun n c => (digit? c).bind fun d => if d < radix then some (radix * n + d) else none) 0

/-- The number of a literal. One in decimal does not start with zero, unless it is zero. -/
def number? : List Char → Option Nat
  | '0' :: 'x' :: digits => if digits.isEmpty then none else numberIn? 16 digits
  | ['0'] => some 0
  | c :: digits => if c = '0' then none else numberIn? 10 (c :: digits)
  | [] => none

/-- The token of a run of characters that may stand in a name. -/
def word? (cs : List Char) : Option Token :=
  if cs.head?.any Char.isDigit then (number? cs).map .number
  else if isIdentifier (String.ofList cs) then
    if String.ofList cs ∈ keywords then some (.reserved (String.ofList cs))
    else some (.name (String.ofList cs))
  else none

/-- Whether a character is part of a sign. -/
def isSignPart (c : Char) : Bool := ['|', '&', '<', '>', '!', '='].contains c

/-- The token of a run of characters that are parts of signs. -/
def sign? : List Char → Option Token
  | ['|'] => some (.sign .union)
  | ['&'] => some (.sign .conjunction)
  | ['<', '<'] => some (.sign .left)
  | ['>', '>'] => some (.sign .right)
  | ['>'] => some (.sign .above)
  | ['!', '='] => some (.sign .differs)
  | ['='] => some .equals
  | _ => none

/-- The token of a character that stands for itself. -/
def point? : Char → Option Token
  | '(' => some .opening
  | ')' => some .closing
  | ',' => some .comma
  | ':' => some .colon
  | _ => none

/-- Whether a character stands for itself between quotes. -/
def isPlain (c : Char) : Bool := c != '\\' && !isLineBreak c

/-- The tokens of a line. Words and signs are as long as possible, and spaces part them. -/
def tokens? (cs : List Char) : Option (List Token) :=
  match cs with
  | [] => some []
  | c :: rest =>
    if c = ' ' then tokens? rest
    else if isNamePart c then
      (word? (c :: rest.takeWhile isNamePart)).bind fun token =>
        (tokens? (rest.dropWhile isNamePart)).map (token :: ·)
    else if isSignPart c then
      (sign? (c :: rest.takeWhile isSignPart)).bind fun token =>
        (tokens? (rest.dropWhile isSignPart)).map (token :: ·)
    else if c = '\'' then
      if (rest.takeWhile (· ≠ '\'')).all isPlain ∧ rest.dropWhile (· ≠ '\'') ≠ [] then
        (tokens? (rest.dropWhile (· ≠ '\'')).tail).map
          (.text (String.ofList (rest.takeWhile (· ≠ '\''))) :: ·)
      else none
    else (point? c).bind fun token => (tokens? rest).map (token :: ·)
termination_by cs.length
decreasing_by
  all_goals simp_wf
  · have := rest.length_dropWhile_le isNamePart
    omega
  · have := rest.length_dropWhile_le isSignPart
    omega
  · have := rest.length_dropWhile_le (· ≠ '\'')
    simp only [ne_eq, decide_not] at this
    omega

/-! Expressions -/

inductive Expression where
  | name (s : String)
  | number (n : Nat)
  | text (s : String)
  | binary (s : Sign) (left right : Expression)
  | tuple (items : List Expression)
  | call (f : String) (arguments : List Expression)

/-- What stands between two parentheses: operands, signs and commas. -/
inductive Piece where
  | operand (t : Expression)
  | sign (s : Sign)
  | comma

def Piece.isComma : Piece → Bool
  | .comma => true
  | _ => false

/-- The pieces before the first of some signs, and those after each of them. -/
def separate (signs : List Sign) : List Piece → List Piece × List (Sign × List Piece)
  | [] => ([], [])
  | .sign s :: rest =>
    if s ∈ signs then ([], (s, (separate signs rest).1) :: (separate signs rest).2)
    else (.sign s :: (separate signs rest).1, (separate signs rest).2)
  | piece :: rest => (piece :: (separate signs rest).1, (separate signs rest).2)

/-- Read pieces with signs that bind from the left; what is between them is read in another way. -/
def chain? (signs : List Sign) (read : List Piece → Option Expression) (pieces : List Piece) :
    Option Expression :=
  (separate signs pieces).2.foldl
    (fun tree other => tree.bind fun t => (read other.2).map (.binary other.1 t))
    (read (separate signs pieces).1)

def operand? : List Piece → Option Expression
  | [.operand t] => some t
  | _ => none

def shift? : List Piece → Option Expression := chain? [.left, .right] operand?

def conjunction? : List Piece → Option Expression := chain? [.conjunction] shift?

def union? : List Piece → Option Expression := chain? [.union] conjunction?

/-- Comparisons are not chained. -/
def comparison? (pieces : List Piece) : Option Expression :=
  match separate [.above, .differs] pieces with
  | (only, []) => union? only
  | (left, [(s, right)]) =>
    (union? left).bind fun t => (union? right).map (.binary s t)
  | _ => none

/-- Expressions between commas. One more comma may follow the last of them. -/
def items? (pieces : List Piece) : Option (List Expression) :=
  if pieces.isEmpty then some []
  else
    let parts := pieces.splitOnP Piece.isComma
    (if parts.getLast?.any List.isEmpty then parts.dropLast else parts).mapM comparison?

/-- The expression in parentheses. It is a tuple if there is a comma, or nothing at all. -/
def group? (pieces : List Piece) : Option Expression :=
  if pieces.isEmpty || pieces.any Piece.isComma then (items? pieces).map .tuple
  else comparison? pieces

/-- The pieces read since the last open parenthesis, latest first, and those before each of them. -/
structure State where
  pieces : List Piece
  outer : List (List Piece)

/-- A parenthesis after a name holds its arguments. -/
def close? (inner : List Piece) : List Piece → Option (List Piece)
  | .operand (.name f) :: before =>
    (items? inner.reverse).map fun arguments => .operand (.call f arguments) :: before
  | before => (group? inner.reverse).map fun t => .operand t :: before

def piece? : Token → Option Piece
  | .name s => some (.operand (.name s))
  | .number n => some (.operand (.number n))
  | .text s => some (.operand (.text s))
  | .sign s => some (.sign s)
  | .comma => some .comma
  | _ => none

def step? (state : State) : Token → Option State
  | .opening => some ⟨[], state.pieces :: state.outer⟩
  | .closing =>
    match state.outer with
    | [] => none
    | before :: outer => (close? state.pieces before).map fun pieces => ⟨pieces, outer⟩
  | token => (piece? token).map fun piece => ⟨piece :: state.pieces, state.outer⟩

def expression? (tokens : List Token) : Option Expression :=
  (tokens.foldlM step? ⟨[], []⟩).bind fun state =>
    if state.outer.isEmpty ∧ ¬ state.pieces.isEmpty then group? state.pieces.reverse else none

/-! Statements -/

/-- A line that is not blank, with the number of spaces in front of it. -/
structure Row where
  depth : Nat
  tokens : List Token

def row? (line : List Char) : Option Row :=
  (tokens? line).map fun tokens => ⟨(line.takeWhile (· = ' ')).length, tokens⟩

def rows? (text : String) : Option (List Row) :=
  ((lines text).mapM row?).map fun rows => rows.filter fun row => !row.tokens.isEmpty

/-- A line with the lines that belong to it. -/
inductive Block where
  | mk (row : Row) (inner : List Block)

def Block.depth : Block → Nat
  | ⟨row, _⟩ => row.depth

def arrange : List Row → List Block
  | [] => []
  | row :: rest =>
    ⟨row, (arrange rest).takeWhile fun block => row.depth < block.depth⟩ ::
      (arrange rest).dropWhile fun block => row.depth < block.depth

inductive Statement where
  | assign (x : String) (e : Expression)
  | perform (e : Expression)
  | check (condition : Expression) (body : List Statement)
  | give (e : Expression)

/-- The condition of a line that ends in a colon. -/
def condition? (tokens : List Token) : Option Expression :=
  match tokens.getLast? with
  | some .colon => expression? tokens.dropLast
  | _ => none

/-- The statement of a line that no lines belong to. -/
def simple? : List Token → Option Statement
  | .reserved s :: rest => if s = "return" then (expression? rest).map .give else none
  | .name x :: .equals :: rest => (expression? rest).map (.assign x)
  | tokens => (expression? tokens).map .perform

mutual

def statement? : Block → Option Statement
  | ⟨row, []⟩ => simple? row.tokens
  | ⟨⟨_, .reserved s :: rest⟩, first :: others⟩ =>
    if s = "if" then
      (condition? rest).bind fun condition =>
        (statements? first.depth (first :: others)).map (.check condition)
    else none
  | _ => none

/-- The statements of lines that all have one depth. -/
def statements? (depth : Nat) : List Block → Option (List Statement)
  | [] => some []
  | block :: rest =>
    if block.depth = depth then
      (statement? block).bind fun statement =>
        (statements? depth rest).map (statement :: ·)
    else none

end

structure Definition where
  name : String
  params : List String
  body : List Statement

/-- The parameters in the first line of a definition, after the open parenthesis. -/
def params? : List Token → Option (List String)
  | [.closing, .colon] => some []
  | [.name x, .closing, .colon] => some [x]
  | .name x :: .comma :: rest => (params? rest).map (x :: ·)
  | _ => none

/-- The single definition of a script. -/
def definition? : List Block → Option Definition
  | [⟨⟨0, .reserved s :: .name f :: .opening :: rest⟩, first :: others⟩] =>
    if s = "def" then
      (params? rest).bind fun params =>
        (statements? first.depth (first :: others)).map (⟨f, params, ·⟩)
    else none
  | _ => none

def read? (text : String) : Option Definition :=
  (rows? text).bind fun rows => definition? (arrange rows)

end BitTemplate.Script
