import BitTemplate.Document.Schema
import BitTemplate.Value.Text

/-!
The description of a layout as a document, and the schema of such documents. Positions count
from the most significant bit of a template, and masks have their lowest bit at the least
significant one.
-/
namespace BitTemplate

namespace Field

def description (f : Field) : Value :=
  .dict [
    (.text "name", .ofLetter f.name),
    (.text "width", .int f.width),
    (.text "positions", .list (f.positions.map fun (p : Nat) => .int p))]

end Field

namespace Layout

/-- The description of a layout. -/
def description (l : Layout) : Value :=
  .dict [
    (.text "width", .int l.width),
    (.text "base", .text l.template.base.adjective),
    (.text "fields", .list (l.fields.map Field.description)),
    (.text "literal", .dict [
      (.text "mask", .int l.template.literalMask),
      (.text "value", .int l.template.literalValue)]),
    (.text "placeholder_mask", .int l.template.placeholderMask)]

/-- How the description of a layout is shown. -/
def descriptionTitle (l : Layout) : String :=
  "<splitbits.lib.meta.TemplateAnnotation for " ++ l.quoted ++ ">"

end Layout

namespace Description

def fieldSchema : Schema :=
  .object [
    ("name", [.type .string, .pattern Validator.letterPattern]),
    ("width", .integerFrom 1),
    ("positions", [.type .array, .items (Schema.integerFrom 0), .minItems 1, .uniqueItems])]

def literalSchema : Schema := .object [("mask", .integerFrom 0), ("value", .integerFrom 0)]

/-- The schema of descriptions. -/
def schema : Schema :=
  .object [
    ("width", [.enum (standardWidths.map fun (w : Nat) => .int w)]),
    ("base", [.enum [.text Base.binary.adjective, .text Base.hexadecimal.adjective]]),
    ("fields", [.type .array, .items fieldSchema]),
    ("literal", literalSchema),
    ("placeholder_mask", .integerFrom 0)]

/-- The schema of descriptions as a document. -/
def schemaDocument : Value :=
  .dict ((.text "$schema", .text "https://json-schema.org/draft/2020-12/schema") ::
    (.text "$id", .text "urn:splitbits:schema:0.1:template-layout") :: Schema.entries schema)

/-- Hold a value to the schema. Where there is no value, the schema itself is checked. -/
def evaluateBy (V : Validator) (v : Value) : Except Error (List Violation) :=
  match v with
  | .none => do
    Schema.checkBy V schemaDocument
    return []
  | v =>
    match v.document? with
    | none => .error .wrongKind
    | some document => V.evaluate schema document

def checkBy (V : Validator) (v : Value) : Except Error Unit := do
  let violations ← evaluateBy V v
  if violations.isEmpty then return () else .error (.nonconforming violations)

def check (v : Value) : Except Error Unit := checkBy .usual v

/-- The description of a value that should be a layout, checked. -/
def ofValueBy (V : Validator) (v : Value) : Except Error (Layout × Value) :=
  match v with
  | .layout l => do
    checkBy V l.description
    return (l, l.description)
  | v => .error (.notALayout v)

def ofValue (v : Value) : Except Error (Layout × Value) := ofValueBy .usual v

end Description

end BitTemplate
