import BitTemplate.Template.Cell
import BitTemplate.Text.Blank

/-!
A template is a text together with the cells that it stands for, most significant first. Each
cell remembers the index of the character that it came from. The number of cells is one of the
standard widths. The masks of a template have a one at every placeholder, at every literal, or
at every literal one, where bit 0 belongs to the last cell.
-/
namespace BitTemplate

/-- The widths that a template may have, in bits. -/
def standardWidths : List Nat := [8, 16, 32, 64, 128]

/-- A cell and the index of the character that it was written as. -/
structure Mark where
  cell : Cell
  origin : Nat
  deriving DecidableEq

structure Template where
  text : String
  base : Base
  marks : List Mark
  standard : marks.length ∈ standardWidths

namespace Template

def cells (t : Template) : List Cell := t.marks.map Mark.cell

def width (t : Template) : Nat := t.marks.length

/-- The index of the character that the cell at a position was written as. -/
def origin (t : Template) (position : Nat) : Nat :=
  (t.marks[position]?.map Mark.origin).getD 0

def cellText (t : Template) : String := String.ofList (t.cells.map Cell.char)

end Template

/-- The members of a list in the order in which they first occur. -/
def firstOccurrences {α : Type} [DecidableEq α] : List α → List α
  | [] => []
  | a :: rest => a :: (firstOccurrences rest).filter (· ≠ a)

theorem mem_firstOccurrences {α : Type} [DecidableEq α] {a : α} {xs : List α} :
    a ∈ firstOccurrences xs ↔ a ∈ xs := by
  induction xs with
  | nil => simp [firstOccurrences]
  | cons b rest ih =>
    simp only [firstOccurrences, List.mem_cons, List.mem_filter, ih, decide_eq_true_eq]
    constructor
    · rintro (h | ⟨h, _⟩)
      · exact Or.inl h
      · exact Or.inr h
    · rintro (h | h)
      · exact Or.inl h
      · by_cases hab : a = b
        · exact Or.inl hab
        · exact Or.inr ⟨h, hab⟩

def lettersOf (cells : List Cell) : List Letter :=
  firstOccurrences (cells.filterMap Cell.letter?)

theorem mem_lettersOf {a : Letter} {cells : List Cell} :
    a ∈ lettersOf cells ↔ Cell.field a ∈ cells := by
  simp only [lettersOf, mem_firstOccurrences, List.mem_filterMap]
  constructor
  · rintro ⟨cell, hmem, hcell⟩
    cases cell <;> simp_all [Cell.letter?]
  · intro h
    exact ⟨_, h, rfl⟩

/-- The number with a one at every cell of a kind, the last cell being bit 0. -/
def maskOf (kind : Cell → Bool) (cells : List Cell) : Nat :=
  cells.foldl (fun mask cell => 2 * mask + (kind cell).toNat) 0

namespace Template

def names (t : Template) : List Letter := lettersOf t.cells

def placeholderMask (t : Template) : Nat := maskOf Cell.isPlaceholder t.cells

def literalMask (t : Template) : Nat := maskOf Cell.isLiteral t.cells

def literalValue (t : Template) : Nat := maskOf Cell.isOne t.cells

def hasPlaceholders (t : Template) : Bool := t.cells.any Cell.isPlaceholder

def hasLiterals (t : Template) : Bool := t.cells.any Cell.isLiteral

/-- The first cell of a kind, with its origin. -/
def firstMark? (t : Template) (kind : Cell → Bool) : Option Mark :=
  t.marks.find? fun mark => kind mark.cell

/-- Templates are the same if they have the same cells, however they are written. -/
def same (t u : Template) : Bool := t.cells == u.cells

/-- The hash of a template is that of its cells as a text, whatever the hash of a text is. -/
def hash (hashText : String → Int) (t : Template) : Int := hashText t.cellText

@[simp] theorem length_cells (t : Template) : t.cells.length = t.width := by
  simp [cells, width]

theorem mem_names (t : Template) (a : Letter) : a ∈ t.names ↔ Cell.field a ∈ t.cells :=
  mem_lettersOf

end Template

end BitTemplate
