/-!
# Envelopes

The unit of exchange between clients and the relay. An envelope registers a client, carries a chat,
announces a file or carries one chunk of a file. Except for a registration it names the client it
comes from and, optionally, the one it is for; without a recipient it is for everyone else.
-/

namespace Mailroom

/-- Who a client says it is. The id is what envelopes are addressed to. -/
structure Identity where
  id : String
  name : String
  deriving DecidableEq, Repr, Inhabited

def Identity.display (i : Identity) : String := i.name ++ " (" ++ i.id ++ ")"

structure Chat where
  fromId : String
  toId : Option String
  message : String
  deriving DecidableEq, Repr

/-- Opens the transfer of a file. The sizes are advice: a transfer ends with its last chunk. -/
structure Announcement where
  fromId : String
  toId : Option String
  name : String
  size : UInt64
  chunkSize : UInt64
  deriving DecidableEq, Repr

/-- A piece of a file, its bytes in base64. -/
structure Chunk where
  fromId : String
  toId : Option String
  fileName : String
  seq : UInt64
  data : String
  isLast : Bool
  deriving DecidableEq, Repr

inductive Envelope where
  | registration (identity : Identity)
  | chat (chat : Chat)
  | announcement (announcement : Announcement)
  | chunk (chunk : Chunk)
  deriving DecidableEq, Repr

/-- What an envelope carries. -/
inductive Kind where
  | registration
  | chat
  | announcement
  | chunk
  deriving DecidableEq, Repr

namespace Kind

/-- The tag of the kind on the wire, which is also the name of the field that holds the payload. -/
def tag : Kind → String
  | .registration => "registration"
  | .chat => "chat"
  | .announcement => "file_announce"
  | .chunk => "file_chunk"

/-- All kinds, in the order of their fields on the wire. -/
def all : List Kind := [.registration, .chat, .announcement, .chunk]

end Kind

namespace Envelope

def kind : Envelope → Kind
  | registration _ => .registration
  | chat _ => .chat
  | announcement _ => .announcement
  | chunk _ => .chunk

/-- The client an envelope claims to come from. -/
def senderId : Envelope → String
  | registration i => i.id
  | chat c => c.fromId
  | announcement a => a.fromId
  | chunk c => c.fromId

/-- The recipient as it is given. -/
def toId? : Envelope → Option String
  | registration _ => none
  | chat c => c.toId
  | announcement a => a.toId
  | chunk c => c.toId

/-- The single client an envelope is for, or nothing if it is for everyone else. An empty recipient
counts as none. -/
def recipient? (e : Envelope) : Option String := e.toId?.filter (· ≠ "")

end Envelope

end Mailroom
