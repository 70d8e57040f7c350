/-!
A bounded store of finished work. The most recently used entry stands first; when the store is
full, the last one makes room for a new one. Work that fails is counted as a miss and not kept.
-/
namespace BitTemplate

structure Cache (κ α : Type) where
  entries : List (κ × α) := []
  hits : Nat := 0
  misses : Nat := 0

/-- What came of asking for an entry: it was there, it was made, or it could not be made. -/
inductive Lookup (ε α : Type) where
  | found (item : α)
  | made (item : α)
  | failed (e : ε)

namespace Lookup

variable {ε α : Type}

def item : Lookup ε α → Except ε α
  | .found a => .ok a
  | .made a => .ok a
  | .failed e => .error e

/-- The item if it had to be made. -/
def new? : Lookup ε α → Option α
  | .made a => some a
  | _ => none

end Lookup

namespace Cache

variable {κ α ε : Type} [DecidableEq κ]

def capacity : Nat := 512

def size (c : Cache κ α) : Nat := c.entries.length

def get? (c : Cache κ α) (key : κ) : Option α := c.entries.lookup key

def touch (c : Cache κ α) (key : κ) (item : α) : Cache κ α where
  entries := (key, item) :: c.entries.filter fun entry => entry.1 ≠ key
  hits := c.hits + 1
  misses := c.misses

def store (c : Cache κ α) (key : κ) (item : α) : Cache κ α where
  entries := (key, item) :: c.entries.take (capacity - 1)
  hits := c.hits
  misses := c.misses + 1

/-- Ask for an entry, making it if it is not there. -/
def fetch (c : Cache κ α) (key : κ) (make : κ → Except ε α) : Lookup ε α × Cache κ α :=
  match c.get? key with
  | some item => (.found item, c.touch key item)
  | none =>
    match make key with
    | .ok item => (.made item, c.store key item)
    | .error e => (.failed e, { c with misses := c.misses + 1 })

end Cache

end BitTemplate
