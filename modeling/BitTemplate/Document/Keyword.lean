import BitTemplate.Value.Basic

/-!
Schemas of documents. A schema is made of keywords, each with something to ask of a document. What
`closed` asks depends on the properties that are named beside it. A schema is a document itself.
-/
namespace BitTemplate

/-- The kinds of documents that a schema can ask for. -/
inductive Kind where
  | object
  | array
  | string
  | integer
  deriving DecidableEq

inductive Keyword where
  | type (kind : Kind)
  | enum (choices : List Value)
  | minimum (n : Int)
  | minItems (n : Nat)
  | uniqueItems
  | pattern (expression : String)
  | items (schema : List Keyword)
  | properties (parts : List (String × List Keyword))
  | closed
  | required (names : List String)

abbrev Schema := List Keyword

namespace Kind

def name : Kind → String
  | object => "object"
  | array => "array"
  | string => "string"
  | integer => "integer"

/-- A number without a fraction is an integer too. -/
def includes : Kind → Value → Bool
  | object, .dict _ => true
  | array, .list _ => true
  | string, .text _ => true
  | integer, .int _ => true
  | integer, .real x => x.isIntegral
  | _, _ => false

end Kind

namespace Schema

/-- The names of the properties that a schema knows. -/
def propertyNames (schema : Schema) : List String :=
  schema.flatMap fun
    | .properties parts => parts.map Prod.fst
    | _ => []

/-- An object that has exactly the given properties. -/
def object (parts : List (String × Schema)) : Schema :=
  [.type .object, .properties parts, .closed, .required (parts.map Prod.fst)]

/-- An integer that is not below another. -/
def integerFrom (n : Int) : Schema := [.type .integer, .minimum n]

end Schema

mutual

/-- A keyword as an entry of the document of its schema. -/
def Keyword.entry : Keyword → Value × Value
  | .type kind => (.text "type", .text kind.name)
  | .enum choices => (.text "enum", .list choices)
  | .minimum n => (.text "minimum", .int n)
  | .minItems n => (.text "minItems", .int n)
  | .uniqueItems => (.text "uniqueItems", .bool true)
  | .pattern expression => (.text "pattern", .text expression)
  | .items schema => (.text "items", .dict (Schema.entries schema))
  | .properties parts => (.text "properties", .dict (Schema.partEntries parts))
  | .closed => (.text "additionalProperties", .bool false)
  | .required names => (.text "required", .list (names.map .text))

def Schema.entries : List Keyword → List (Value × Value)
  | [] => []
  | keyword :: rest => keyword.entry :: Schema.entries rest

def Schema.partEntries : List (String × List Keyword) → List (Value × Value)
  | [] => []
  | (name, schema) :: rest => (.text name, .dict (Schema.entries schema)) :: Schema.partEntries rest

end

end BitTemplate
