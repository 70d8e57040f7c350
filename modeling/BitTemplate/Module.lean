import BitTemplate.Markup
import BitTemplate.Operation.Basic
import BitTemplate.Text.Identifier

/-!
Operations written as a module of Python functions that needs nothing else. Each function has a
name of its own, and an extraction with named fields also defines a record. No name may be used
twice, nor one that the module itself needs.
-/
namespace BitTemplate

/-- What is to be written under a name: an operation, or something that is none. -/
inductive Content where
  | operation (op : Operation)
  | other (v : Value)

structure Module where
  defined : List String := []
  records : List (String × List Letter) := []
  functions : List Program.Function := []

namespace Module

/-- The names that every module defines or uses. -/
def reserved : List String := ["collections", "FieldOverflowError", "overflow", "min"]

/-- Define a name, which has to be free. -/
def define (m : Module) (name : String) : Except Error Module :=
  if ¬ Text.isFreeName name then .error (.functionNameForm name)
  else if reserved.contains name ∨ m.defined.contains name then
    .error (.functionNameTaken name)
  else .ok { m with defined := m.defined ++ [name] }

/-- The name of the record of a function. -/
def recordName (name : String) : String := name ++ "_Fields"

/-- Add an operation under a name that is already defined. -/
def addOperation (m : Module) (name : String) : Operation → Except Error Module
  | .extraction x =>
    if x.named then do
      let m ← m.define (recordName name)
      let f ← x.function name (some (recordName name))
      return { m with
        records := m.records ++ [(recordName name, x.names)]
        functions := m.functions ++ [f] }
    else do
      let f ← x.function name none
      return { m with functions := m.functions ++ [f] }
  | op => do
    let f ← op.function name none
    return { m with functions := m.functions ++ [f] }

/-- Add an item. Its name is checked before what stands under it. -/
def add (m : Module) (key : Value) (content : Content) : Except Error Module :=
  match key with
  | .text name => do
    let m ← m.define name
    match content with
    | .other v => .error (.notAnOperation v)
    | .operation op => m.addOperation name op
  | v => .error (.functionNameKind v)

/-- The module with the given items, in their order. -/
def ofItems (items : List (Value × Content)) : Except Error Module :=
  items.foldlM (fun m item => m.add item.1 item.2) {}

/-- The module for a value that is no mapping of operations. It is one only if it is empty. -/
def ofValue (v : Value) : Except Error Module :=
  match v.entries? with
  | some entries => ofItems (entries.map fun entry => (entry.1, .other entry.2))
  | none => .error (.operationsKind v)

/-- The version that a module is marked with. -/
def version : String := "0.1.0"

open Markup in
/-- The page that a module is written on. -/
def template : List Block := [
  .line [],
  .line [.text "    # Generated by splitbits ", .value "version"],
  .when "name" [[.text "    # ", .value "name"]],
  .when "records" [[], [.text "    import collections"]],
  .line [],
  .line [],
  .line [.text "    class FieldOverflowError(OverflowError):"],
  .line [.text "        def __init__(self, name, value, width):"],
  .line [.text ("            super().__init__(f\"Field \x7bname!r\x7d value \x7bvalue:#b\x7d " ++
    "does not fit in its \x7bwidth\x7d-bit \"")],
  .line [.text ("                             f\"slot (maximum \x7b(1 << width) - 1:#b\x7d)\")")],
  .line [.text "            self.name  = name"],
  .line [.text "            self.value = value"],
  .line [.text "            self.width = width"],
  .line [],
  .line [],
  .line [.text "    def overflow(name, value, width):"],
  .line [.text "        raise FieldOverflowError(name, value, width)"],
  .each ["record", "names"] "records" [
    [],
    [],
    [.text "    ", .value "record", .text " = collections.namedtuple(\"Fields\", ", .value "names",
      .text ")"]],
  .each ["function"] "functions" [
    [],
    [],
    [.text "    ", .value "function"]],
  .line []]

def recordRow (record : String × List Letter) : List String :=
  [record.1, Program.tupleText (record.2.map Letter.quoted)]

/-- What the page of a module is filled with. A function is inserted without its last line end. -/
def context (m : Module) (name : Value) : Markup.Context where
  holds
    | "name" => name.isTrue
    | "records" => !m.records.isEmpty
    | _ => false
  text
    | "version" => version
    | "name" => name.shown
    | _ => ""
  table
    | "records" => m.records.map recordRow
    | "functions" => m.functions.map fun f => [Text.trimEnd f.text]
    | _ => []

/-- The text of a module, by a way to fill pages. -/
def textBy (render : Markup.Renderer) (m : Module) (name : Value) : String :=
  Text.trimEnd (render (Markup.strip (Markup.dedent template)) (m.context name)) ++ "\n"

def text (m : Module) (name : Value) : String := m.textBy Markup.render name

end Module

end BitTemplate
