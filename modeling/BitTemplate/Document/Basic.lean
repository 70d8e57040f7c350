import BitTemplate.Value.Same

/-!
Documents are values that other tools can read: nothing, truth values, numbers, texts, lists, and
dictionaries of documents. Two numbers are the same document if they are equal, but a truth value
is not a number. The keys of dictionaries are compared as keys, and there a truth value is one.
-/
namespace BitTemplate.Value

mutual

/-- A value as a document. A layout stands for the dictionary of its fields, and is one only if
there are none. -/
def document? : Value → Option Value
  | .none => some .none
  | .bool b => some (.bool b)
  | .int n => some (.int n)
  | .real x => some (.real x)
  | .text s => some (.text s)
  | .list items => (documentItems? items).map .list
  | .dict entries => (documentEntries? entries).map .dict
  | .layout l => if l.names.isEmpty then some (.dict []) else Option.none
  | _ => Option.none

def documentItems? : List Value → Option (List Value)
  | [] => some []
  | v :: rest =>
    match document? v, documentItems? rest with
    | some v, some rest => some (v :: rest)
    | _, _ => Option.none

def documentEntries? : List (Value × Value) → Option (List (Value × Value))
  | [] => some []
  | (key, v) :: rest =>
    match document? v, documentEntries? rest with
    | some v, some rest => some ((key, v) :: rest)
    | _, _ => Option.none

end

mutual

/-- Whether two documents are the same. -/
def sameDocument : Value → Value → Bool
  | .none, .none => true
  | .bool a, .bool b => a == b
  | .int n, .int m => n == m
  | .int n, .real x => x.compareInt? n == some .eq
  | .real x, .int n => x.compareInt? n == some .eq
  | .real x, .real y => x.same y
  | .text s, .text t => s == t
  | .list xs, .list ys => sameDocumentItems xs ys
  | .dict es, .dict fs => es.length == fs.length && sameDocumentEntries es fs
  | _, _ => false

def sameDocumentItems : List Value → List Value → Bool
  | [], [] => true
  | x :: xs, y :: ys => sameDocument x y && sameDocumentItems xs ys
  | _, _ => false

/-- Whether every entry of the first dictionary has its like in the second. -/
def sameDocumentEntries : List (Value × Value) → List (Value × Value) → Bool
  | [], _ => true
  | (k, v) :: rest, others =>
    (others.any fun entry => k.same entry.1 && sameDocument v entry.2) &&
      sameDocumentEntries rest others

end

/-- Whether no item of a list occurs again later in it. -/
def distinctItems : List Value → Bool
  | [] => true
  | v :: rest => (rest.all fun w => !sameDocument v w) && distinctItems rest

end BitTemplate.Value
