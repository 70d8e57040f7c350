import BitTemplate.Error
import BitTemplate.Text.Word
import BitTemplate.Value.Same

/-!
A source file may switch warnings on and off by a comment on its first line, which lists options
as `name=value` separated by commas. A comment with a malformed option has no options at all.
-/
namespace BitTemplate.Directive

/-- What opens the list of options, after the sign of a comment and any blanks. -/
def opening : List Char := "splitbits:".toList

def after? : List Char → List Char → Option (List Char)
  | [], cs => some cs
  | _ :: _, [] => none
  | d :: ds, c :: cs => if c = d then after? ds cs else none

def body? : List Char → Option (List Char)
  | '#' :: rest => after? opening (rest.dropWhile Text.isBlank)
  | _ => none

def split (separator : Char) : List Char → List (List Char)
  | [] => [[]]
  | c :: rest =>
    if c = separator then [] :: split separator rest
    else
      match split separator rest with
      | [] => [[c]]
      | piece :: pieces => (c :: piece) :: pieces

def option? (item : List Char) : Option (String × String) :=
  match split '=' (Text.trim item) with
  | [name, value] =>
    if name ≠ [] ∧ value ≠ [] ∧ name.all Text.isWordChar ∧ value.all Text.isWordChar then
      some (String.ofList name, String.ofList value)
    else none
  | _ => none

/-- Set an option. One that is already there keeps its place. -/
def set (name value : String) : List (String × String) → List (String × String)
  | [] => [(name, value)]
  | (n, v) :: rest => if n = name then (n, value) :: rest else (n, v) :: set name value rest

def stripEnd (line : List Char) : List Char := (line.reverse.dropWhile (· == '\n')).reverse

/-- The options on the first line of a file. Their list does not go on after the end of a
line. -/
def options (firstLine : String) : List (String × String) :=
  match body? (stripEnd firstLine.toList) with
  | none => []
  | some body =>
    if body.contains '\n' then []
    else
      match (split ',' body).mapM option? with
      | none => []
      | some found => found.foldl (fun options pair => set pair.1 pair.2 options) []

def switch? (firstLine name : String) : Option Bool :=
  match (options firstLine).lookup name with
  | none => none
  | some value =>
    if ["1", "yes", "enable"].contains value then some true
    else if ["0", "no", "disable"].contains value then some false
    else none

/-- What an option asked for by any value is switched to, or a default if it is not. Only texts
name options, and what cannot be a key cannot be asked for. -/
def setting (firstLine : String) (name default : Value) : Except Error Value :=
  match name with
  | .text name => .ok (((switch? firstLine name).map Value.bool).getD default)
  | name => if name.isKey then .ok default else .error .wrongKind

end BitTemplate.Directive
