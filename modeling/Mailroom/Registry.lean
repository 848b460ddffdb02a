import Mailroom.Envelope

/-!
# The registry

Which clients are registered, and on which connection each of them is. An id is taken by one client
at a time. Entries are removed by connection and not by id, so that the end of an old connection
never removes a newer one that has the same id.
-/

namespace Mailroom

/-- Connections are numbered in the order in which they are accepted. -/
abbrev ConnId := Nat

structure Registered where
  identity : Identity
  conn : ConnId
  deriving DecidableEq

/-- The registered clients, in the order in which they registered. -/
structure Registry where
  entries : List Registered
  deriving DecidableEq

/-- The id that a client wants to register is taken. -/
structure AlreadyRegistered where
  id : String
  deriving DecidableEq

def AlreadyRegistered.message (e : AlreadyRegistered) : String :=
  "client id " ++ e.id ++ " is already registered"

namespace Registry

def empty : Registry := ⟨[]⟩

/-- The client registered under an id. -/
def find? (r : Registry) (id : String) : Option Registered :=
  r.entries.find? fun e => e.identity.id = id

def lookup (r : Registry) (id : String) : Option ConnId := (r.find? id).map Registered.conn

def register (r : Registry) (identity : Identity) (conn : ConnId) :
    Except AlreadyRegistered Registry :=
  if (r.find? identity.id).isSome then .error ⟨identity.id⟩
  else .ok ⟨r.entries ++ [⟨identity, conn⟩]⟩

/-- Removes an entry of a connection, if it has one. -/
def unregister (r : Registry) (conn : ConnId) : Option Identity × Registry :=
  match r.entries.find? fun e => e.conn = conn with
  | none => (none, r)
  | some e => (some e.identity, ⟨r.entries.erase e⟩)

def snapshot (r : Registry) : List Registered := r.entries

def size (r : Registry) : Nat := r.entries.length

/-- A registration is refused exactly when its id is taken. -/
theorem register_eq_error_iff {r : Registry} {identity : Identity} {conn : ConnId}
    {e : AlreadyRegistered} :
    r.register identity conn = .error e ↔ (r.find? identity.id).isSome ∧ e = ⟨identity.id⟩ := by
  by_cases h : (r.find? identity.id).isSome <;> simp [register, h, eq_comm]

/-- A registration adds its own entry and changes no other. -/
theorem find?_of_register {r r' : Registry} {identity : Identity} {conn : ConnId}
    (h : r.register identity conn = .ok r') (id : String) :
    r'.find? id = if id = identity.id then some ⟨identity, conn⟩ else r.find? id := by
  rw [register] at h
  split at h
  · cases h
  next free =>
    cases h
    rw [Option.not_isSome_iff_eq_none] at free
    by_cases hid : id = identity.id
    · subst hid
      simp only [find?] at free
      simp [find?, List.find?_append, free]
    · have other : identity.id ≠ id := fun h => hid h.symm
      simp [find?, List.find?_append, hid, other]

end Registry

end Mailroom
