import Mailroom.Envelope
import Mailroom.Json.Record
import Mailroom.Json.Write

/-!
# Envelopes as JSON

On the wire an envelope is a record with the tag of its kind and one field for each kind of payload,
of which exactly the one with that tag is filled. Writing leaves out what is absent; reading accepts
every form that `Json.Fields.read` accepts, and then looks at which payloads there are.
-/

namespace Mailroom

/-- Why bytes are not an envelope. -/
inductive Malformed where
  | json (fault : Json.Fault)
  | conflictingPayloads (kind : Kind)
  | missingPayload (kind : Kind)
  deriving DecidableEq

def Malformed.message : Malformed → String
  | .json fault => fault.message
  | .conflictingPayloads kind => kind.tag ++ " frame carries more than one payload"
  | .missingPayload kind => kind.tag ++ " frame has no " ++ kind.tag ++ " payload"

namespace Wire

open Json

def optionalText (name : String) : RecordField (Option String) := .optional name readText

def identityFields : Fields [String, String] :=
  .cons (.text "id") <| .cons (.text "name") .nil

def readIdentity : Reader Identity := fun s =>
  (identityFields.read "ClientIdentity" s).map fun ((id, name, ()), r) => (⟨id, name⟩, r)

def chatFields : Fields [String, Option String, String] :=
  .cons (.text "from_id") <| .cons (optionalText "to_id") <| .cons (.text "message") .nil

def readChat : Reader Chat := fun s =>
  (chatFields.read "ChatMessage" s).map fun ((fromId, toId, message, ()), r) =>
    (⟨fromId, toId, message⟩, r)

def announcementFields : Fields [String, Option String, String, UInt64, UInt64] :=
  .cons (.text "from_id") <| .cons (optionalText "to_id") <| .cons (.text "name") <|
    .cons (.natural "size") <| .cons (.natural "chunk_size") .nil

def readAnnouncement : Reader Announcement := fun s =>
  (announcementFields.read "FileAnnouncement" s).map
    fun ((fromId, toId, name, size, chunkSize, ()), r) => (⟨fromId, toId, name, size, chunkSize⟩, r)

def chunkFields : Fields [String, Option String, String, UInt64, String, Bool] :=
  .cons (.text "from_id") <| .cons (optionalText "to_id") <| .cons (.text "file_name") <|
    .cons (.natural "seq") <| .cons (.text "data_b64") <| .cons (.flag "is_last") .nil

def readChunk : Reader Chunk := fun s =>
  (chunkFields.read "FileChunk" s).map
    fun ((fromId, toId, fileName, seq, data, isLast, ()), r) =>
      (⟨fromId, toId, fileName, seq, data, isLast⟩, r)

def readKind : Reader Kind := readVariant (Kind.all.map fun k => (k.tag, k))

/-- The kind that is claimed and the payloads that are there. -/
structure Payloads where
  kind : Kind
  registration : Option Identity
  chat : Option Chat
  announcement : Option Announcement
  chunk : Option Chunk

def payloadFields :
    Fields [Kind, Option Identity, Option Chat, Option Announcement, Option Chunk] :=
  .cons ⟨"type", readKind, none⟩ <| .cons (.optional Kind.registration.tag readIdentity) <|
    .cons (.optional Kind.chat.tag readChat) <|
    .cons (.optional Kind.announcement.tag readAnnouncement) <|
    .cons (.optional Kind.chunk.tag readChunk) .nil

def readPayloads : Reader Payloads := fun s =>
  (payloadFields.read "WireEnvelope" s).map
    fun ((kind, registration, chat, announcement, chunk, ()), r) =>
      (⟨kind, registration, chat, announcement, chunk⟩, r)

namespace Payloads

/-- How many payloads there are. -/
def count (p : Payloads) : Nat :=
  p.registration.isSome.toNat + p.chat.isSome.toNat + p.announcement.isSome.toNat +
    p.chunk.isSome.toNat

/-- The payload that has the claimed kind. -/
def claimed? (p : Payloads) : Option Envelope :=
  match p.kind with
  | .registration => p.registration.map .registration
  | .chat => p.chat.map .chat
  | .announcement => p.announcement.map .announcement
  | .chunk => p.chunk.map .chunk

def toEnvelope (p : Payloads) : Except Malformed Envelope :=
  if 1 < p.count then .error (.conflictingPayloads p.kind)
  else match p.claimed? with
    | none => .error (.missingPayload p.kind)
    | some e => .ok e

end Payloads

/-- The envelope that these bytes are. What follows it is looked at last. -/
def read (s : Bytes) : Except Malformed Envelope := do
  let (payloads, rest) ← (readPayloads s).mapError .json
  let envelope ← payloads.toEnvelope
  (readEnd rest).mapError .json
  return envelope

def writeRecipient (toId : Option String) : List (String × Bytes) :=
  match toId with
  | none => []
  | some id => [("to_id", Text.write id)]

def payloadMembers : Envelope → List (String × Bytes)
  | .registration i => [("id", Text.write i.id), ("name", Text.write i.name)]
  | .chat c =>
    [("from_id", Text.write c.fromId)] ++ writeRecipient c.toId ++
      [("message", Text.write c.message)]
  | .announcement a =>
    [("from_id", Text.write a.fromId)] ++ writeRecipient a.toId ++
      [("name", Text.write a.name), ("size", writeNatural a.size.toNat),
        ("chunk_size", writeNatural a.chunkSize.toNat)]
  | .chunk c =>
    [("from_id", Text.write c.fromId)] ++ writeRecipient c.toId ++
      [("file_name", Text.write c.fileName), ("seq", writeNatural c.seq.toNat),
        ("data_b64", Text.write c.data), ("is_last", writeFlag c.isLast)]

def write (e : Envelope) : Bytes :=
  writeObject [("type", Text.write e.kind.tag), (e.kind.tag, writeObject (payloadMembers e))]

end Wire

end Mailroom
