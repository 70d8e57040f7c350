import BitTemplate.Document.Basic
import BitTemplate.Document.Keyword
import BitTemplate.Error

/-!
Rules for documents. A rule lists the keywords of a schema that a document violates, each with
the place where it does. Keywords that are about another kind of document hold trivially, and
those that go into the parts of a document are violated themselves where a part is.
-/
namespace BitTemplate

abbrev Rule := Value → List Violation

namespace Violation

def here (keyword : String) : Violation := ⟨[], [keyword]⟩

def within (place keyword : List String) (x : Violation) : Violation :=
  ⟨place ++ x.location, keyword ++ x.keyword⟩

/-- A path as text, with a slash before each key. -/
def pointer (path : List String) : String :=
  String.join (path.map fun key =>
    "/" ++ (key.replace "~" "~0").replace "/" "~1")

/-- The places and keywords of violations as text, in their order. -/
def listing (violations : List Violation) : List (String × String) :=
  (violations.map fun x => (pointer x.location, pointer x.keyword)).mergeSort
    fun x y => x.1 < y.1 || (x.1 == y.1 && x.2 ≤ y.2)

end Violation

namespace Rule

def plain (keyword : String) (holds : Value → Bool) : Rule :=
  fun v => if holds v then [] else [.here keyword]

/-- A keyword whose violations are those of the parts, and its own if there are any. -/
def nested (keyword : String) (below : Value → List Violation) : Rule :=
  fun v => if (below v).isEmpty then [] else .here keyword :: below v

def type (kind : Kind) : Rule := plain "type" kind.includes

def enum (choices : List Value) : Rule :=
  plain "enum" fun v => choices.any fun choice => v.sameDocument choice

def minimum (n : Int) : Rule :=
  plain "minimum" fun
    | .int m => decide (n ≤ m)
    | .real x => x.compareInt? n != some .lt
    | _ => true

def minItems (n : Nat) : Rule :=
  plain "minItems" fun
    | .list items => decide (n ≤ items.length)
    | _ => true

def uniqueItems : Rule :=
  plain "uniqueItems" fun
    | .list items => Value.distinctItems items
    | _ => true

def pattern (isMatch : String → Bool) : Rule :=
  plain "pattern" fun
    | .text s => isMatch s
    | _ => true

def items (rule : Rule) : Rule :=
  nested "items" fun
    | .list items => items.zipIdx.flatMap fun (v, i) =>
      (rule v).map (.within [Text.decimalNat i] ["items"])
    | _ => []

def properties (rules : List (String × Rule)) : Rule :=
  nested "properties" fun
    | .dict entries => rules.flatMap fun (name, rule) =>
      match Value.entry? name entries with
      | some v => (rule v).map (.within [name] ["properties", name])
      | none => []
    | _ => []

def closed (names : List String) : Rule :=
  plain "additionalProperties" fun
    | .dict entries => entries.all fun entry =>
      names.any fun name => entry.1.sameDocument (.text name)
    | _ => true

def required (names : List String) : Rule :=
  plain "required" fun
    | .dict entries => names.all fun name => (Value.entry? name entries).isSome
    | _ => true

end Rule

end BitTemplate
