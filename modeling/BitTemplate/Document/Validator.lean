import BitTemplate.Document.Dialect
import BitTemplate.Document.Rule

/-!
Validators hold documents to a schema, and schemas to the dialect that they are written in. There
is one for each way to read the regular expressions of patterns.
-/
namespace BitTemplate

structure Validator where
  /-- The keywords of a schema that a document violates. -/
  evaluate : Schema → Value → Except Error (List Violation)
  /-- Whether a document is a schema. -/
  admits : Value → Bool

mutual

/-- What a keyword asks, beside properties of the given names. -/
def Keyword.rule (isMatch : String → String → Bool) (names : List String) : Keyword → Rule
  | .type kind => .type kind
  | .enum choices => .enum choices
  | .minimum n => .minimum n
  | .minItems n => .minItems n
  | .uniqueItems => .uniqueItems
  | .pattern expression => .pattern (isMatch expression)
  | .items schema => .items (Schema.rule isMatch (Schema.propertyNames schema) schema)
  | .properties parts => .properties (Schema.partRules isMatch parts)
  | .closed => .closed names
  | .required required => .required required

def Schema.rule (isMatch : String → String → Bool) (names : List String) : List Keyword → Rule
  | [] => fun _ => []
  | keyword :: rest => fun v =>
    keyword.rule isMatch names v ++ Schema.rule isMatch names rest v

def Schema.partRules (isMatch : String → String → Bool) :
    List (String × List Keyword) → List (String × Rule)
  | [] => []
  | (name, schema) :: rest =>
    (name, Schema.rule isMatch (Schema.propertyNames schema) schema) ::
      Schema.partRules isMatch rest

end

def listItems : Value → List Value
  | .list items => items
  | _ => []

def dictEntries : Value → List (Value × Value)
  | .dict entries => entries
  | _ => []

mutual

/-- The parts of a document that a keyword asks to be integers, in their order. -/
def Keyword.integers : Keyword → Value → List Value
  | .type kind => fun v => if kind = .integer then [v] else []
  | .items schema => fun v => (listItems v).flatMap (Schema.integers schema)
  | .properties parts => fun v =>
    (dictEntries v).flatMap fun entry => Schema.partIntegers parts entry.1 entry.2
  | _ => fun _ => []

def Schema.integers : List Keyword → Value → List Value
  | [] => fun _ => []
  | keyword :: rest => fun v => keyword.integers v ++ Schema.integers rest v

def Schema.partIntegers : List (String × List Keyword) → Value → Value → List Value
  | [] => fun _ _ => []
  | (name, schema) :: rest => fun key v =>
    if key.same (.text name) then Schema.integers schema v
    else Schema.partIntegers rest key v

end

namespace Validator

/-- Refuse the first number that is not finite. It cannot be told whether that is an integer. -/
def checkFinite : List Value → Except Error Unit
  | [] => .ok ()
  | .real (.infinite _) :: _ => .error .infiniteNumber
  | .real .undefined :: _ => .error .undefinedNumber
  | _ :: rest => checkFinite rest

def ofMatch (isMatch : String → String → Bool) : Validator where
  evaluate schema v := do
    checkFinite (Schema.integers schema v)
    return Schema.rule isMatch (Schema.propertyNames schema) schema v
  admits := Dialect.conforms .whole []

/-- The pattern of one letter. -/
def letterPattern : String := "^[A-Za-z]$"

/-- One letter. A line may end after it. -/
def isLetterLine : List Char → Bool
  | [c] => (Letter.ofChar? c).isSome
  | [c, '\n'] => (Letter.ofChar? c).isSome
  | _ => false

/-- The validator that is used. Of regular expressions it needs to know one. -/
def usual : Validator :=
  ofMatch fun expression s => expression != letterPattern || isLetterLine s.toList

end Validator

end BitTemplate
