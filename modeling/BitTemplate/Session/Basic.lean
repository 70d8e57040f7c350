import BitTemplate.Session.Cache
import BitTemplate.Session.Key

/-!
Calls that name their templates each time, and a session of such calls. An operation is made on
its first use and kept for later ones, so a warning about it is given once while it is kept.
-/
namespace BitTemplate

/-- How the fields of an extraction are given back. -/
inductive Form where
  | record
  | tuple
  | single
  deriving DecidableEq

inductive Request where
  | extract (form : Form) (base : Base) (precision : Precision) (value template minimum : Value)
  | combine (base : Base) (template : Value) (values : List Value)
      (keywords : List (Value × Value)) (overflow : Value)
  | replace (base : Base) (target template : Value) (values : List Value)
      (keywords : List (Value × Value)) (overflow : Value)
  | transfer (base : Base) (arguments : List Value) (overflow : Value)

/-- Where a call is made: the variables in sight, the engine that the environment asks for, and
the first line of the file. -/
structure Caller where
  scope : Scope := {}
  engine : Option String := none
  firstLine : String := ""

structure Reply where
  result : Except Error Outcome
  warnings : List String := []

structure Session where
  extractions : Cache ExtractionKey Extraction := {}
  combinations : Cache StorageKey Combination := {}
  replacements : Cache StorageKey Replacement := {}
  transfers : Cache TransferKey Transfer := {}

def Outcome.first : Outcome → Outcome
  | .tuple (item :: _) => .value item
  | other => other

namespace Form

def named : Form → Bool
  | .record => true
  | _ => false

/-- Apply an extraction. A single field has to be the only one. -/
def apply (form : Form) (x : Extraction) (value : Value) : Except Error Outcome :=
  match form with
  | .single =>
    if x.names.length ≠ 1 then
      .error (.notOneField x.layout.template.text x.names.length)
    else (x.run value).map Outcome.first
  | _ => x.run value

end Form

namespace Combination

def callFrom (c : Combination) (scope : Scope) (values : List Value)
    (keywords : List (Value × Value)) : Except Error Outcome := do
  c.run (← c.layout.bind values keywords (some scope))

end Combination

namespace Replacement

def callFrom (r : Replacement) (scope : Scope) (target : Value) (values : List Value)
    (keywords : List (Value × Value)) : Except Error Outcome := do
  r.run target (← r.layout.bind values keywords (some scope))

end Replacement

namespace Transfer

/-- The name of a transfer that is called with its templates. -/
def callName : Base → String
  | .binary => "splitbits_then_combine"
  | .hexadecimal => "splithex_then_combine"

/-- The values, the input templates and the output template among arguments in which each value
is followed by its template. -/
def pairUp : List Value → Option (List Value × List Value × Value)
  | value :: input :: [output] => some ([value], [input], output)
  | value :: input :: rest =>
    match pairUp rest with
    | some (values, inputs, output) => some (value :: values, input :: inputs, output)
    | none => none
  | _ => none

end Transfer

namespace Session

def extract (s : Session) (caller : Caller) (form : Form) (base : Base) (precision : Precision)
    (value template minimum : Value) : Reply × Session :=
  match ExtractionKey.read template minimum base precision form.named caller.engine with
  | .error e => (⟨.error e, []⟩, s)
  | .ok key =>
    let (lookup, cache) := s.extractions.fetch key ExtractionKey.make
    let warnings := (lookup.new?.bind fun x => x.warning? caller.firstLine).toList
    (⟨lookup.item >>= fun x => form.apply x value, warnings⟩, { s with extractions := cache })

def combine (s : Session) (caller : Caller) (base : Base) (template : Value)
    (values : List Value) (keywords : List (Value × Value)) (overflow : Value) :
    Reply × Session :=
  match StorageKey.read template overflow base caller.engine with
  | .error e => (⟨.error e, []⟩, s)
  | .ok key =>
    let (lookup, cache) := s.combinations.fetch key StorageKey.makeCombination
    (⟨lookup.item >>= fun c => c.callFrom caller.scope values keywords, []⟩,
      { s with combinations := cache })

def replace (s : Session) (caller : Caller) (base : Base) (target template : Value)
    (values : List Value) (keywords : List (Value × Value)) (overflow : Value) :
    Reply × Session :=
  match StorageKey.read template overflow base caller.engine with
  | .error e => (⟨.error e, []⟩, s)
  | .ok key =>
    let (lookup, cache) := s.replacements.fetch key StorageKey.makeReplacement
    (⟨lookup.item >>= fun r => r.callFrom caller.scope target values keywords, []⟩,
      { s with replacements := cache })

def transfer (s : Session) (caller : Caller) (base : Base) (arguments : List Value)
    (overflow : Value) : Reply × Session :=
  match Transfer.pairUp arguments with
  | none => (⟨.error (.unpaired (Transfer.callName base) arguments.length), []⟩, s)
  | some (values, inputs, output) =>
    match TransferKey.read inputs output overflow base caller.engine with
    | .error e => (⟨.error e, []⟩, s)
    | .ok key =>
      let (lookup, cache) := s.transfers.fetch key TransferKey.make
      (⟨lookup.item >>= fun t => t.run values, []⟩, { s with transfers := cache })

/-- Answer a call, with the operations that earlier calls have left. -/
def step (s : Session) (caller : Caller) : Request → Reply × Session
  | .extract form base precision value template minimum =>
    s.extract caller form base precision value template minimum
  | .combine base template values keywords overflow =>
    s.combine caller base template values keywords overflow
  | .replace base target template values keywords overflow =>
    s.replace caller base target template values keywords overflow
  | .transfer base arguments overflow => s.transfer caller base arguments overflow

def run (s : Session) : List (Caller × Request) → List Reply
  | [] => []
  | (caller, request) :: rest =>
    let (reply, s) := s.step caller request
    reply :: s.run rest

end Session

end BitTemplate
