import BitTemplate.Text.Blank

/-!
Pages with gaps. A page is made of lines and of blocks of lines. A line may name texts, which are
inserted as they are. A block is left out unless a condition holds, or is written once for each row
of a table, whose columns then have names of their own. The tags that open and close a block stand
on lines of their own, and nothing is left of these lines.
-/
namespace BitTemplate.Markup

inductive Piece where
  | text (s : String)
  | value (name : String)
  deriving DecidableEq

abbrev Line := List Piece

inductive Block where
  | line (l : Line)
  | when (condition : String) (body : List Line)
  | each (columns : List String) (table : String) (body : List Line)
  deriving DecidableEq

/-- What a page is filled with, by name. -/
structure Context where
  holds : String → Bool
  text : String → String
  table : String → List (List String)

namespace Context

/-- The texts of a row go by the names of the columns. -/
def bind (c : Context) (columns row : List String) : Context :=
  { c with text := fun name => ((columns.zip row).lookup name).getD (c.text name) }

def fillPiece (c : Context) : Piece → String
  | .text s => s
  | .value name => c.text name

def fillLine (c : Context) (l : Line) : String := String.join (l.map c.fillPiece) ++ "\n"

def fillLines (c : Context) (ls : List Line) : String := String.join (ls.map c.fillLine)

def fillBlock (c : Context) : Block → String
  | .line l => c.fillLine l
  | .when condition body => if c.holds condition then c.fillLines body else ""
  | .each columns table body =>
    String.join ((c.table table).map fun row => (c.bind columns row).fillLines body)

end Context

/-- A way to fill pages. -/
abbrev Renderer := List Block → Context → String

def render : Renderer := fun page c => String.join (page.map c.fillBlock)

/-! Pages are written with an indentation of their own, between blank lines. -/

def isBlankLine (l : Line) : Bool :=
  l.all fun
    | .text s => s.toList.all Text.isBlank
    | .value _ => false

def indentation : Line → Nat
  | .text s :: _ => (s.toList.takeWhile (· == ' ')).length
  | _ => 0

def Block.lines : Block → List Line
  | .line l => [l]
  | .when _ body => body
  | .each _ _ body => body

def Block.mapLines (f : Line → Line) : Block → Block
  | .line l => .line (f l)
  | .when condition body => .when condition (body.map f)
  | .each columns table body => .each columns table (body.map f)

/-- The indentation that all lines of a page have in common. Blank lines do not count. -/
def margin (page : List Block) : Nat :=
  (((page.flatMap Block.lines).filter fun l => !isBlankLine l).map indentation).min?.getD 0

def cut (count : Nat) (l : Line) : Line :=
  if isBlankLine l then []
  else
    match l with
    | .text s :: rest => .text (String.ofList (s.toList.drop count)) :: rest
    | l => l

def dedent (page : List Block) : List Block := page.map (Block.mapLines (cut (margin page)))

def Block.isBlank : Block → Bool
  | .line l => isBlankLine l
  | _ => false

/-- A page without the blank lines at its two ends. -/
def strip (page : List Block) : List Block :=
  ((page.dropWhile Block.isBlank).reverse.dropWhile Block.isBlank).reverse

end BitTemplate.Markup
