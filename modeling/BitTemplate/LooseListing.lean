import BitTemplate.Error
import BitTemplate.Text.Listing

/-!
A listing whose lines were never checked to be texts. A line of another kind is taken like any
other, and keeps the whole listing from being read. Levels are closed only after they were
opened.
-/
namespace BitTemplate

structure LooseListing where
  listing : Text.Listing := {}
  /-- Whether some line is not a text. -/
  spoiled : Bool := false

namespace LooseListing

def append (l : LooseListing) : Value → LooseListing
  | .text code => { l with listing := l.listing.append code }
  | _ => { l with spoiled := true }

def indent (l : LooseListing) : LooseListing := { l with listing := l.listing.indent }

def dedent (l : LooseListing) : Except Error LooseListing :=
  if l.listing.level = 0 then .error .unopenedLevel
  else .ok { l with listing := l.listing.dedent }

/-- A name that has not been handed out before. -/
def freshName (l : LooseListing) (stem : Value) : String × LooseListing :=
  let (name, listing) := l.listing.freshName stem.shown
  (name, { l with listing })

/-- Add a line that assigns a value to a fresh name. -/
def define (l : LooseListing) (stem value : Value) : String × LooseListing :=
  let (name, listing) := l.listing.define stem.shown value.shown
  (name, { l with listing })

def flush (l : LooseListing) : Except Error (String × LooseListing) :=
  if l.spoiled then .error .wrongKind
  else
    let (text, listing) := l.listing.flush
    .ok (text, { l with listing })

end LooseListing

end BitTemplate
