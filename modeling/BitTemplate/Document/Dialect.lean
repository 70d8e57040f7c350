import BitTemplate.Document.Basic

/-!
The dialect that schemas are written in. Its keywords are described in parts, each for itself,
and the whole dialect puts the parts together. Some keywords hold further schemas, and which
part such a schema is held to depends on the parts that are being read when it is reached: it is
the one of them that was entered longest ago, where a part that is entered again counts from
then. So a schema directly within another is held to the whole dialect, but one that is reached
through two different parts only to the first of these. Wherever a schema that is held to the
whole dialect names types, these have to exist.
-/
namespace BitTemplate.Dialect

/-- A part of the dialect that has keywords with schemas in them, or the whole of it. -/
inductive Part where
  | whole
  | core
  | applicator
  | unevaluated
  | content
  deriving DecidableEq

/-- How a keyword holds schemas. -/
inductive Holding where
  /-- It is a schema. -/
  | single
  /-- It is a list of schemas, and not empty. -/
  | listed
  /-- It has schemas by name. -/
  | named
  /-- It has schemas or lists of names by name. -/
  | dependent
  deriving DecidableEq

/-- The keywords that hold a schema in conditions and in the items and entries of a value. -/
def applicators : List String :=
  ["items", "contains", "additionalProperties", "propertyNames", "not", "if", "then", "else"]

def listApplicators : List String := ["allOf", "anyOf", "oneOf", "prefixItems"]

def namedApplicators : List String := ["properties", "patternProperties", "dependentSchemas"]

/-- The part that a keyword is described in and how it holds schemas, if it does. -/
def holder? (keyword : String) : Option (Part × Holding) :=
  if applicators.contains keyword then some (.applicator, .single)
  else if listApplicators.contains keyword then some (.applicator, .listed)
  else if namedApplicators.contains keyword then some (.applicator, .named)
  else if keyword = "unevaluatedItems" ∨ keyword = "unevaluatedProperties" then
    some (.unevaluated, .single)
  else if keyword = "contentSchema" then some (.content, .single)
  else if keyword = "$defs" then some (.core, .named)
  else if keyword = "definitions" then some (.whole, .named)
  else if keyword = "dependencies" then some (.whole, .dependent)
  else none

/-- Whether a schema that is held to one part has the keywords of another checked. The whole
dialect takes in every part. -/
def Part.includes (held part : Part) : Bool := held == .whole || held == part

/-- The parts that are being read, the one that was entered last in front. -/
abbrev Scope := List Part

namespace Scope

def enter (scope : Scope) (part : Part) : Scope := part :: scope.erase part

/-- The scope of a keyword of a part, in a schema that is held to a part. -/
def descend (scope : Scope) (held part : Part) : Scope := (scope.enter held).enter part

/-- What a schema that is reached now is held to. -/
def target (scope : Scope) : Part := scope.getLast?.getD .whole

end Scope

def typeNames : List String :=
  ["array", "boolean", "integer", "null", "number", "object", "string"]

def isTypeName : Value → Bool
  | .text s => typeNames.contains s
  | _ => false

/-- A type, or a list of different types that is not empty. -/
def isType : Value → Bool
  | .list names => !names.isEmpty && names.all isTypeName && Value.distinctItems names
  | v => isTypeName v

/-- A list of different texts. -/
def isNameList : Value → Bool
  | .list names => names.all Value.isText && Value.distinctItems names
  | _ => false

mutual

/-- Whether a value is a schema as far as a part of the dialect says. -/
def conforms (held : Part) (scope : Scope) : Value → Bool
  | .dict entries => keywordsConform held scope entries
  | .bool _ => true
  | _ => false

/-- Whether the keywords of a schema are as a part of the dialect says. -/
def keywordsConform (held : Part) (scope : Scope) : List (Value × Value) → Bool
  | [] => true
  | (.text keyword, v) :: rest =>
    (if keyword = "type" then held != .whole || isType v
      else
        match holder? keyword with
        | none => true
        | some (part, holding) =>
          let inner := scope.descend held part
          !held.includes part ||
            match holding, v with
            | .single, v => conforms inner.target inner v
            | .listed, .list items => !items.isEmpty && itemsConform inner items
            | .named, .dict entries => entriesConform inner entries
            | .dependent, .dict entries => dependenciesConform inner entries
            | _, _ => false) &&
      keywordsConform held scope rest
  | _ :: rest => keywordsConform held scope rest

def itemsConform (scope : Scope) : List Value → Bool
  | [] => true
  | v :: rest => conforms scope.target scope v && itemsConform scope rest

def entriesConform (scope : Scope) : List (Value × Value) → Bool
  | [] => true
  | (_, v) :: rest => conforms scope.target scope v && entriesConform scope rest

def dependenciesConform (scope : Scope) : List (Value × Value) → Bool
  | [] => true
  | (_, v) :: rest =>
    (isNameList v || conforms scope.target scope v) && dependenciesConform scope rest

end

end BitTemplate.Dialect
