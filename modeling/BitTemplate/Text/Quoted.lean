import BitTemplate.Text.Digits
import BitTemplate.Text.Printable

/-!
Text as a quoted literal. Apostrophes enclose it, unless it holds an apostrophe and no quotation
mark; then quotation marks do. The enclosing mark and the backslash are escaped, and so is every
character that cannot be shown.
-/
namespace BitTemplate.Text

def enclosingMark (cs : List Char) : Char :=
  if cs.contains '\x27' && !cs.contains '"' then '"' else '\x27'

/-- A character that cannot be shown, by its code point in two, four or eight digits. -/
def escapeCode (c : Char) : List Char :=
  let n := c.toNat
  if n < 0x100 then '\\' :: 'x' :: lastDigits 16 2 n
  else if n < 0x10000 then '\\' :: 'u' :: lastDigits 16 4 n
  else '\\' :: 'U' :: lastDigits 16 8 n

/-- A character as it stands inside a literal enclosed in `mark`. -/
def escape (mark c : Char) : List Char :=
  if c = mark || c = '\\' then ['\\', c]
  else if c = '\t' then ['\\', 't']
  else if c = '\n' then ['\\', 'n']
  else if c = '\r' then ['\\', 'r']
  else if isPrintable c then [c]
  else escapeCode c

def quote (s : String) : String :=
  let cs := s.toList
  let mark := enclosingMark cs
  String.ofList (mark :: cs.flatMap (escape mark) ++ [mark])

end BitTemplate.Text
