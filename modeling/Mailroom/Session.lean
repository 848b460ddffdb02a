import Mailroom.Connection.Writer
import Mailroom.Routing

/-!
# Sessions

What the relay does for one connection, from its acceptance to its end. A session reads a frame,
acts on it to the end and only then reads the next one. It awaits a registration first: until one is
accepted it ignores everything else. After that every frame is routed, and a further registration is
ignored. The end of the stream, a frame that cannot be read, or a request to close ends the session,
which then gives up its place in the registry.
-/

namespace Mailroom

/-- What a session is at. -/
inductive Activity where
  | reading
  /-- A usable registration was read, and its id is to be taken. -/
  | registering (identity : Identity)
  /-- The id is taken, and the others are to be told. -/
  | joining
  /-- A frame was read from a registered client. -/
  | routing (f : Inbound)
  /-- A frame is being handed over; these are the connections still to be tried. -/
  | posting (d : Dispatch)
  /-- Nothing more is read. -/
  | closing
  /-- The connection is told to close, and the entry in the registry is to be removed. -/
  | leaving
  | gone
  deriving DecidableEq

structure Session where
  /-- The identity under which the client has registered. -/
  identity? : Option Identity
  activity : Activity
  reader : FrameReader
  writer : Writer
  deriving DecidableEq

/-- To hand over a frame that nobody gets is to be done with it. -/
def Activity.ofDispatch (d : Dispatch) : Activity :=
  if d.targets.isEmpty then .reading else .posting d

namespace Session

/-- The session of a connection that was just accepted. -/
def fresh (maxFrameSize : Nat) : Session := ⟨none, .reading, .fresh maxFrameSize, .fresh⟩

/-- The session of a connection that could not be set up. -/
def refused (maxFrameSize : Nat) : Session :=
  { fresh maxFrameSize with activity := .gone, writer := { Writer.fresh with isRunning := false } }

def isGone (s : Session) : Bool := s.activity = .gone

/-- What a session does about a frame. Awaiting a registration it takes one with an id, and nothing
else. -/
def actOn (s : Session) (f : Inbound) : Activity :=
  match s.identity?, f.envelope with
  | none, .registration identity => if identity.id = "" then .reading else .registering identity
  | none, _ => .reading
  | some _, .registration _ => .reading
  | some _, _ => .routing f

/-- Reads the next frame, unless it has not arrived. -/
def read? (s : Session) : Option Session :=
  match s.activity with
  | .reading =>
    match s.reader.next with
    | (.waiting, _) => none
    | (.frame f, reader) => some { s with activity := s.actOn f, reader }
    | (.failed _, reader) => some { s with activity := .closing, reader }
    | (.ended, reader) => some { s with activity := .closing, reader }
  | _ => none

end Session

end Mailroom
