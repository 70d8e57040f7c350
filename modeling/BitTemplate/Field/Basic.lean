import BitTemplate.Letter
import BitTemplate.Segment

/-!
A field occupies distinct positions of a template, position 0 being the most significant bit of
the template. The first of them in the given order holds the most significant bit of the field.
Positions that follow one another form runs, and each maximal run moves as one segment.
-/
namespace BitTemplate

structure Field where
  name : Letter
  positions : List Nat
  templateWidth : Nat
  nonempty : positions ≠ []
  below : ∀ p ∈ positions, p < templateWidth
  nodup : positions.Nodup

/-- Consecutive positions, from the first on. -/
structure Run where
  start : Nat
  length : Nat
  deriving DecidableEq

def runs : List Nat → List Run
  | [] => []
  | p :: rest =>
    match runs rest with
    | [] => [⟨p, 1⟩]
    | run :: others =>
      if run.start = p + 1 then ⟨p, run.length + 1⟩ :: others else ⟨p, 1⟩ :: run :: others

/-- The number of positions in a list of runs. -/
def covered : List Run → Nat
  | [] => 0
  | run :: rest => run.length + covered rest

/-- The segments of runs in a template of the given width. A run lies above all later runs in
the field value. -/
def segmentsOf (templateWidth : Nat) : List Run → List Segment
  | [] => []
  | run :: rest =>
    ⟨templateWidth - run.start - run.length, run.length, covered rest⟩ ::
      segmentsOf templateWidth rest

theorem runs_ne_nil {ps : List Nat} (h : ps ≠ []) : runs ps ≠ [] := by
  cases ps with
  | nil => exact absurd rfl h
  | cons p rest =>
    unfold runs
    split
    · simp
    · split <;> simp

theorem segmentsOf_ne_nil {w : Nat} {rs : List Run} (h : rs ≠ []) : segmentsOf w rs ≠ [] := by
  cases rs with
  | nil => exact absurd rfl h
  | cons run rest => simp [segmentsOf]

namespace Field

def width (f : Field) : Nat := f.positions.length

/-- The segments of the field, from its most significant bits on. -/
def segments (f : Field) : List Segment := segmentsOf f.templateWidth (runs f.positions)

theorem segments_ne_nil (f : Field) : f.segments ≠ [] :=
  segmentsOf_ne_nil (runs_ne_nil f.nonempty)

/-- The segment with the most significant bit of the field. -/
def top (f : Field) : Segment := f.segments.head f.segments_ne_nil

/-- The template bit just above the most significant segment. -/
def spillOffset (f : Field) : Nat := f.top.offset + f.top.length

/-- The bits of a value that do not fit the field, placed above its most significant segment. -/
def spill (f : Field) (value : Int) : Int := (value >>> f.width) <<< f.spillOffset

def mask (f : Field) : Nat := f.segments.foldl (fun mask segment => mask ||| segment.mask) 0

def maximum (f : Field) : Nat := Bits.ones f.width

def extract (f : Field) (value : Int) : Int :=
  Bits.union (f.segments.map fun segment => segment.extract value)

/-- The template bits of a field value, without those that do not fit. -/
def deposit (f : Field) (value : Int) : Int :=
  Bits.union (f.segments.map fun segment => segment.deposit value)

/-- Fields are the same if they have the same name, positions and template width. -/
def same (f g : Field) : Bool :=
  f.name == g.name && f.positions == g.positions && f.templateWidth == g.templateWidth

end Field

end BitTemplate
