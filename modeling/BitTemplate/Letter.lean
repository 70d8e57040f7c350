import BitTemplate.Text.Quoted

/-!
Fields are named by single letters of the English alphabet, in upper or lower case.
-/
namespace BitTemplate

structure Letter where
  char : Char
  isAlpha : char.isAlpha = true
  deriving DecidableEq

namespace Letter

def ofChar? (c : Char) : Option Letter :=
  if h : c.isAlpha = true then some ⟨c, h⟩ else none

/-- The letter that is the whole of a text. -/
def ofString? (s : String) : Option Letter :=
  match s.toList with
  | [c] => ofChar? c
  | _ => none

def text (a : Letter) : String := String.ofList [a.char]

def quoted (a : Letter) : String := Text.quote a.text

theorem ofChar?_char (a : Letter) : ofChar? a.char = some a := by
  simp [ofChar?, a.isAlpha]

theorem ofString?_text (a : Letter) : ofString? a.text = some a := by
  simp [ofString?, text, ofChar?_char]

theorem char_of_ofChar? {c : Char} {a : Letter} (h : ofChar? c = some a) : a.char = c := by
  unfold ofChar? at h
  split at h
  · cases h
    rfl
  · cases h

theorem text_of_ofString? {s : String} {a : Letter} (h : ofString? s = some a) :
    a.text = s := by
  unfold ofString? at h
  split at h
  · rename_i c hc
    rw [text, char_of_ofChar? h, ← hc, String.ofList_toList]
  · cases h

end Letter

end BitTemplate
