import BitTemplate.Layout
import BitTemplate.Program.Basic
import BitTemplate.Slot

/-!
The code of the four operations. A field takes one masked and shifted term per segment; a one-bit
field that is extracted as a truth value takes a single test. Values are refused or lowered
before anything is stored. Storing cuts off what does not fit by the masks of the segments, and
only a slot that spills adds a term for the excess, after which the union is cut to the width of
the template. Literals and kept bits are left out where there are none.
-/
namespace BitTemplate.Program

def extractTerm (width : Nat) (source : Name) (s : Segment) : Except Error Term := do
  let masked := Term.mask (.name source) (← Constant.ofNat s.mask width)
  if s.valueOffset < s.offset then return .right masked (s.offset - s.valueOffset)
  else if s.offset < s.valueOffset then return .left masked (s.valueOffset - s.offset)
  else return masked

def extract (width : Nat) (f : Field) (source : Name) (shape : Option Shape) :
    Except Error Expr :=
  match shape with
  | some .boolean => do return .test source (← Constant.ofNat f.mask width)
  | _ => do return .union (← f.segments.mapM (extractTerm width source))

/-- The steps that make a value fit its slot, the variable that then holds it, and the number of
the next fresh variable. -/
def adapt (slot : Slot) (source : Name) (fresh : Nat) : List Step × Name × Nat :=
  if slot.checked then
    let limit := Constant.full slot.width
    match slot.overflow with
    | .panic => ([.refuse source slot.name limit], source, fresh)
    | .saturate => ([.clamp (.saturated fresh) source limit], .saturated fresh, fresh + 1)
    | .truncate => ([], source, fresh)
    | .corrupt => ([], source, fresh)
  else ([], source, fresh)

def adaptAll : List Slot → Nat → List Step × List Name
  | [], _ => ([], [])
  | slot :: rest, fresh =>
    let (steps, source, fresh) := adapt slot (.letter slot.name) fresh
    let (others, sources) := adaptAll rest fresh
    (steps ++ others, source :: sources)

def depositTerm (width : Nat) (source : Name) (s : Segment) : Except Error Term := do
  let moved :=
    if s.valueOffset < s.offset then Term.left (.name source) (s.offset - s.valueOffset)
    else if s.offset < s.valueOffset then .right (.name source) (s.valueOffset - s.offset)
    else .name source
  return .mask moved (← Constant.ofNat s.mask width)

/-- The terms that store a variable in a slot. Excess above the template is not stored. -/
def deposit (width : Nat) (slot : Slot) (source : Name) : Except Error (List Term) := do
  let terms ← slot.field.segments.mapM (depositTerm width source)
  if slot.spills && slot.field.spillOffset < width then
    return terms ++ [.left (.right (.name source) slot.width) slot.field.spillOffset]
  else return terms

def unlessZero (n width : Nat) (term : Constant → Term) : Except Error (List Term) :=
  if n = 0 then .ok [] else (Constant.ofNat n width).map fun c => [term c]

/-- The steps and the expression that store the letters of all slots in a template, beside the
bits that are kept of a variable. -/
def combine (layout : Layout) (slots : List Slot) (kept : Option Name) :
    Except Error (List Step × Expr) := do
  let width := layout.width
  let (steps, sources) := adaptAll slots 0
  let keptTerms ←
    match kept with
    | some x => unlessZero layout.template.placeholderMask width (.mask (.name x))
    | none => .ok []
  let stored ← (slots.zip sources).mapM fun pair => deposit width pair.1 pair.2
  let fixed ← unlessZero layout.template.literalValue width .constant
  let terms := keptTerms ++ stored.flatten ++ fixed
  if slots.any Slot.spills then return (steps, .bounded terms (.full width))
  else return (steps, .union terms)

def extraction (name : String) (record : Option String) (width : Nat)
    (shaped : List (Field × Shape)) : Except Error Function := do
  let items ← shaped.mapM fun pair => extract width pair.1 .value (some pair.2)
  let result :=
    match record with
    | some record => Return.record record items
    | none => Return.tuple items
  return ⟨name, [.value], [], result⟩

def combination (name : String) (layout : Layout) (slots : List Slot) :
    Except Error Function := do
  let (steps, e) ← combine layout slots none
  return ⟨name, slots.map fun slot => .letter slot.name, steps, .value e⟩

def replacement (name : String) (layout : Layout) (slots : List Slot) :
    Except Error Function := do
  let (steps, e) ← combine layout slots (some .target)
  return ⟨name, .target :: slots.map fun slot => .letter slot.name, steps, .value e⟩

structure Source where
  index : Nat
  field : Field

def transfer (name : String) (inputs : Nat) (output : Layout) (slots : List (Slot × Source)) :
    Except Error Function := do
  let assigned ← slots.mapM fun pair => do
    let field := pair.2.field
    let e ← extract field.templateWidth field (.input pair.2.index) none
    return Step.assign (.letter pair.1.name) e
  let (steps, e) ← combine output (slots.map Prod.fst) none
  return ⟨name, (List.range inputs).map .input, assigned ++ steps, .value e⟩

end BitTemplate.Program
