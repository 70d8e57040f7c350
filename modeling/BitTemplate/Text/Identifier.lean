import BitTemplate.Text.Word

/-!
Names that a Python module may define: identifiers that are not reserved by the language.
-/
namespace BitTemplate.Text

def keywords : List String := [
  "False", "None", "True", "and", "as", "assert", "async", "await", "break", "class", "continue",
  "def", "del", "elif", "else", "except", "finally", "for", "from", "global", "if", "import",
  "in", "is", "lambda", "nonlocal", "not", "or", "pass", "raise", "return", "try", "while",
  "with", "yield"]

def isIdentifier (s : String) : Bool :=
  match s.toList with
  | [] => false
  | c :: rest => isNameStart c && rest.all isNamePart

/-- Whether a text is a name that Python leaves free to define. -/
def isFreeName (s : String) : Bool := isIdentifier s && !keywords.contains s

end BitTemplate.Text
