import BitTemplate.Document.Validator

/-!
A schema that is given as a document has to say what it is called and which dialect it is written
in.
-/
namespace BitTemplate.Schema

def checkBy (V : Validator) (v : Value) : Except Error Unit :=
  match v with
  | .dict entries =>
    if (Value.entry? "$id" entries).isNone then .error (.schemaWithoutId v)
    else if (Value.entry? "$schema" entries).isNone then .error .invalidSchema
    else
      match v.document? with
      | none => .error .wrongKind
      | some document => if V.admits document then .ok () else .error .invalidSchema
  | v => .error (.schemaKind v)

def check (v : Value) : Except Error Unit := checkBy .usual v

end BitTemplate.Schema
