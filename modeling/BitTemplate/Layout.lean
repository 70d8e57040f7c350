import BitTemplate.Field.Basic
import BitTemplate.Template.Basic

/-!
The layout of a template lists its fields in order of first occurrence. The positions of a field
are the indices of the cells with its letter, from left to right.
-/
namespace BitTemplate

/-- The indices of the cells of a field, counting from `start`. -/
def positionsFrom (a : Letter) : Nat → List Cell → List Nat
  | _, [] => []
  | start, cell :: rest =>
    if cell = .field a then start :: positionsFrom a (start + 1) rest
    else positionsFrom a (start + 1) rest

theorem bounds_of_mem_positionsFrom {a : Letter} {start p : Nat} {cells : List Cell}
    (h : p ∈ positionsFrom a start cells) : start ≤ p ∧ p < start + cells.length := by
  induction cells generalizing start with
  | nil => simp [positionsFrom] at h
  | cons cell rest ih =>
    have step : p ∈ positionsFrom a (start + 1) rest →
        start ≤ p ∧ p < start + (cell :: rest).length := by
      intro hp
      have := ih hp
      simp only [List.length_cons]
      omega
    unfold positionsFrom at h
    split at h
    · rcases List.mem_cons.mp h with rfl | hp
      · simp
      · exact step hp
    · exact step h

theorem positionsFrom_pairwise (a : Letter) (start : Nat) (cells : List Cell) :
    (positionsFrom a start cells).Pairwise (· < ·) := by
  induction cells generalizing start with
  | nil => simp [positionsFrom]
  | cons cell rest ih =>
    unfold positionsFrom
    split
    · refine List.pairwise_cons.mpr ⟨fun p hp => ?_, ih (start + 1)⟩
      have := (bounds_of_mem_positionsFrom hp).1
      omega
    · exact ih (start + 1)

theorem positionsFrom_ne_nil {a : Letter} {start : Nat} {cells : List Cell}
    (h : Cell.field a ∈ cells) : positionsFrom a start cells ≠ [] := by
  induction cells generalizing start with
  | nil => simp at h
  | cons cell rest ih =>
    unfold positionsFrom
    split
    · simp
    · rename_i hne
      rcases List.mem_cons.mp h with heq | hmem
      · exact absurd heq.symm hne
      · exact ih hmem

namespace Template

def positions (t : Template) (a : Letter) : List Nat := positionsFrom a 0 t.cells

def field (t : Template) (a : Letter) (h : a ∈ t.names) : Field where
  name := a
  positions := t.positions a
  templateWidth := t.width
  nonempty := positionsFrom_ne_nil ((t.mem_names a).mp h)
  below := fun p hp => by
    have := (bounds_of_mem_positionsFrom hp).2
    simpa using this
  nodup := (positionsFrom_pairwise a 0 t.cells).imp fun h => by omega

end Template

structure Layout where
  template : Template

namespace Layout

def width (l : Layout) : Nat := l.template.width

/-- The fields of the layout, in order of first occurrence of their letters. -/
def fields (l : Layout) : List Field :=
  l.template.names.attach.map fun a => l.template.field a.1 a.2

def names (l : Layout) : List Letter := l.fields.map Field.name

def field? (l : Layout) (a : Letter) : Option Field := l.fields.find? fun f => f.name == a

/-- The index of the template character where a field first occurs. -/
def origin? (l : Layout) (a : Letter) : Option Nat :=
  (l.field? a).map fun f => l.template.origin (f.positions.head f.nonempty)

def sameFields : List Field → List Field → Bool
  | [], [] => true
  | f :: fs, g :: gs => f.same g && sameFields fs gs
  | _, _ => false

/-- Layouts are the same if they agree in width, fields and literals. -/
def same (l m : Layout) : Bool :=
  l.width == m.width && sameFields l.fields m.fields &&
    l.template.literalValue == m.template.literalValue &&
    l.template.literalMask == m.template.literalMask

def hash (hashText : String → Int) (l : Layout) : Int := l.template.hash hashText

end Layout

end BitTemplate
