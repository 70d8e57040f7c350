import BitTemplate.Template.Diagnostic

/-!
Reading a template from its text. Blanks are skipped; every other character stands for the cells
that the base gives it, and the first one without cells is reported. Only then is the number of
cells compared with the standard widths. A template may be forbidden to hold placeholders or
literals; the first such cell is reported at the character that wrote it.
-/
namespace BitTemplate

namespace Template

/-- The cells of the characters from index `index` on, or the first character without cells. -/
def readMarks (base : Base) : Nat → List Char → Except (Char × Nat) (List Mark)
  | _, [] => .ok []
  | index, c :: rest =>
    if Text.isBlank c then readMarks base (index + 1) rest
    else
      match base.expand? c with
      | none => .error (c, index)
      | some cells =>
        match readMarks base (index + 1) rest with
        | .error e => .error e
        | .ok marks => .ok (cells.map (fun cell => ⟨cell, index⟩) ++ marks)

def parse (text : String) (base : Base) : Except Diagnostic Template :=
  match readMarks base 0 text.toList with
  | .error (c, index) => .error ⟨.invalidCharacter c base, text, some index⟩
  | .ok marks =>
    if h : marks.length ∈ standardWidths then .ok ⟨text, base, marks, h⟩
    else .error ⟨.wrongWidth marks.length, text, none⟩

/-- Refuse a template with a cell of a kind, by a fault that may show the character of the cell. -/
def forbid (t : Template) (kind : Cell → Bool) (fault : Char → Fault) : Except Diagnostic Unit :=
  match t.firstMark? kind with
  | none => .ok ()
  | some mark =>
    let digit := t.text.toList[mark.origin]?.getD mark.cell.char
    .error ⟨fault digit, t.text, some mark.origin⟩

def forbidPlaceholders (t : Template) (purpose hint : String) : Except Diagnostic Unit :=
  t.forbid Cell.isPlaceholder fun _ => .placeholder purpose hint

def forbidLiterals (t : Template) (purpose hint : String) : Except Diagnostic Unit :=
  t.forbid Cell.isLiteral fun digit => .literal digit purpose hint

end Template

end BitTemplate
