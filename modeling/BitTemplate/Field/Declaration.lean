import BitTemplate.Value.Reading

/-!
Declaring a field by its name, its positions and the width of its template. The name has to be
one letter, and the positions have to be distinct integers inside the template, at least one.
-/
namespace BitTemplate.DeclaredField

/-- Whether a position lies in a template of the given width, which is only looked at if the
position is an integer. -/
def inside (position templateWidth : Value) : Except Error Bool :=
  match position.toInt? with
  | none => .ok false
  | some p =>
    match templateWidth.integer with
    | .error e => .error e
    | .ok w => .ok (decide (0 ≤ p ∧ p < w))

/-- Refuse the first position that lies outside of the template. -/
def checkPositions (name : Letter) (templateWidth : Value) : List Value → Except Error Unit
  | [] => .ok ()
  | position :: rest =>
    match inside position templateWidth with
    | .error e => .error e
    | .ok false => .error (.positionOutside name position templateWidth)
    | .ok true => checkPositions name templateWidth rest

/-- The field of a letter at positions that have been found inside its template. -/
def build (name : Letter) (positions : List Numeral) (templateWidth : Numeral) :
    Except Error DeclaredField :=
  let places := positions.map fun p => p.toInt.toNat
  let width := templateWidth.toInt.toNat
  if nonempty : places ≠ [] then
    if below : ∀ p ∈ places, p < width then
      if nodup : places.Nodup then
        .ok ⟨⟨name, places, width, nonempty, below, nodup⟩, positions, templateWidth⟩
      else .error (.repeatedPositions name positions)
    else .error .wrongKind
  else .error (.noPositions name)

def letter (v : Value) : Except Error Letter :=
  match v with
  | .text s =>
    match Letter.ofString? s with
    | some a => .ok a
    | none => .error (.fieldName v)
  | v => .error (.fieldName v)

def declare (name positions templateWidth : Value) : Except Error DeclaredField := do
  let a ← letter name
  match positions.items? with
  | none => .error .wrongKind
  | some [] => .error (.noPositions a)
  | some items =>
    checkPositions a templateWidth items
    match items.mapM Value.numeral?, templateWidth.numeral? with
    | some ps, some w => build a ps w
    | some ps, none =>
      if (ps.map Numeral.toInt).Nodup then .error .wrongKind else .error (.repeatedPositions a ps)
    | _, _ => .error .wrongKind

end BitTemplate.DeclaredField
