/-!
# Client ids

A client is known by an id made up of its name, the process it runs in, and how many ids that
process had given out before.
-/

namespace Mailroom

/-- Where the clients of one process get their ids from. -/
structure IdSource where
  process : Nat
  /-- How many ids have been given out. -/
  given : UInt64
  deriving DecidableEq

namespace IdSource

def ofProcess (process : Nat) : IdSource := ⟨process, 0⟩

/-- What the id of a client with a name begins with. -/
def stem (name : String) : String := "client_" ++ name

def render (name : String) (process n : Nat) : String :=
  stem name ++ "_" ++ toString process ++ "_" ++ toString n

/-- An id for a client with a name. -/
def draw (s : IdSource) (name : String) : String × IdSource :=
  (render name s.process s.given.toNat, { s with given := s.given + 1 })

end IdSource

end Mailroom
