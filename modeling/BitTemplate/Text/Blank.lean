/-!
Blank characters: the space, the control characters that move the writing position, the four
information separators, and the space, line and paragraph separators of Unicode. A template
ignores them, and a diagnostic shows each of them as a plain space so that columns stay aligned.
-/
namespace BitTemplate.Text

def isBlank (c : Char) : Bool :=
  let n := c.toNat
  (9 ≤ n && n ≤ 13) || (28 ≤ n && n ≤ 32) || n == 0x85 || n == 0xa0 || n == 0x1680 ||
    (0x2000 ≤ n && n ≤ 0x200a) || n == 0x2028 || n == 0x2029 || n == 0x202f || n == 0x205f ||
    n == 0x3000

/-- A text without the blanks at its two ends. -/
def trim (cs : List Char) : List Char :=
  ((cs.dropWhile isBlank).reverse.dropWhile isBlank).reverse

/-- A text without the blanks at its end. -/
def trimEnd (s : String) : String :=
  String.ofList (s.toList.reverse.dropWhile isBlank).reverse

/-- The same text with every blank shown as a plain space. -/
def flatten (cs : List Char) : List Char :=
  cs.map fun c => if isBlank c then ' ' else c

@[simp] theorem length_flatten (cs : List Char) : (flatten cs).length = cs.length := by
  simp [flatten]

end BitTemplate.Text
