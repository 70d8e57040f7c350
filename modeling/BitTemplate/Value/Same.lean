import BitTemplate.Value.Basic

/-!
When two values are the same. Numbers are compared by value, whatever they are written as;
templates, layouts and fields by what they describe; dictionaries regardless of order.
-/
namespace BitTemplate.Value

mutual

def same : Value → Value → Bool
  | .none, .none => true
  | .bool b, w => w.equalsInt (if b then 1 else 0)
  | .int n, w => w.equalsInt n
  | .real x, .real y => x.same y
  | .real x, w =>
    match w.toInt? with
    | some n => x.compareInt? n == some .eq
    | Option.none => false
  | .text s, .text t => s == t
  | .list xs, .list ys => sameItems xs ys
  | .dict es, .dict fs => es.length == fs.length && sameEntries es fs
  | .template t, .template u => t.same u
  | .layout l, .layout m => l.same m
  | .shape s, .shape t => s == t
  | .segment a b c, .segment a' b' c' => same a a' && same b b' && same c c'
  | .field d, .field e => d.field.same e.field
  | .base b, .base c => b == c
  | .precision p, .precision q => p == q
  | .overflow p, .overflow q => p == q
  | .type t, .type u => t == u
  | .proxy n s, .proxy m t => n == m && s == t
  | _, _ => false

def sameItems : List Value → List Value → Bool
  | [], [] => true
  | x :: xs, y :: ys => same x y && sameItems xs ys
  | _, _ => false

/-- Whether every entry of the first dictionary has its like in the second. -/
def sameEntries : List (Value × Value) → List (Value × Value) → Bool
  | [], _ => true
  | (k, v) :: rest, others =>
    (others.any fun entry => same k entry.1 && same v entry.2) && sameEntries rest others

end

/-- Whether a value may be a key of a dictionary. -/
def isKey : Value → Bool
  | .list _ => false
  | .dict _ => false
  | .segment offset length valueOffset => isKey offset && isKey length && isKey valueOffset
  | _ => true

/-- Set the entry of a key: a key that is already there keeps its place and its spelling. -/
def insertEntry {α : Type} (key : Value) (item : α) : List (Value × α) → List (Value × α)
  | [] => [(key, item)]
  | (k, x) :: rest => if k.same key then (k, item) :: rest else (k, x) :: insertEntry key item rest

/-- The entries of a dictionary that is filled from left to right, unless some value may not be
a key. -/
def fill? {α : Type} (pairs : List (Value × α)) : Option (List (Value × α)) :=
  if pairs.all fun pair => pair.1.isKey then
    some (pairs.foldl (fun entries pair => insertEntry pair.1 pair.2 entries) [])
  else Option.none

def entry? {α : Type} (key : String) (entries : List (Value × α)) : Option α :=
  (entries.find? fun entry => entry.1.same (.text key)).map Prod.snd

end BitTemplate.Value
