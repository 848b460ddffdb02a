import Mailroom.Frame.Reader
import Mailroom.Transfer.Receiver

/-!
# What a client is told

A client reads frames for as long as its connection gives some, and turns each into at most one
event. Its own registration, which a relay may send back, is not one, and neither is a chunk that
does not end a transfer. The connection is lost at the end of the stream or at the first frame that
cannot be read; nothing that follows has an effect.
-/

namespace Mailroom

/-- Something a client's user wants to know. -/
inductive ClientEvent where
  | peerJoined (identity : Identity)
  | chat (chat : Chat)
  /-- A file was announced, and its chunks are expected. -/
  | fileIncoming (announcement : Announcement)
  | fileReceived (file : Transfer.ReceivedFile)
  | transferFailed (reason : Transfer.Error)
  /-- Without a reason the relay has closed the connection. -/
  | connectionLost (reason : Option FrameError)
  deriving DecidableEq

/-- The receiving half of a client, which keeps files in a storage. -/
structure Inbox (σ : Type) where
  /-- The id of the client itself. -/
  ownId : String
  reader : FrameReader
  receiver : Transfer.Receiver σ
  /-- The connection is not lost. -/
  isConnected : Bool

namespace Inbox

variable {σ : Type}

def fresh (ownId : String) (storage : σ) (downloadDir : String) : Inbox σ :=
  ⟨ownId, .fresh Frame.defaultLimit, .fresh storage downloadDir, true⟩

/-- Acts on one envelope. -/
def accept [Storage σ] (i : Inbox σ) : Envelope → Option ClientEvent × Inbox σ
  | .registration identity =>
    (if identity.id = i.ownId then none else some (.peerJoined identity), i)
  | .chat chat => (some (.chat chat), i)
  | .announcement announcement =>
    let (receiver, _) := i.receiver.announce announcement
    (some (.fileIncoming announcement), { i with receiver })
  | .chunk chunk =>
    let (result, receiver, _) := i.receiver.accept chunk
    let event := match result with
      | .ok none => none
      | .ok (some file) => some (.fileReceived file)
      | .error reason => some (.transferFailed reason)
    (event, { i with receiver })

/-- Reads up to `fuel` frames, as long as there are any. -/
def readWith [Storage σ] : (fuel : Nat) → Inbox σ → List ClientEvent × Inbox σ
  | 0, i => ([], i)
  | fuel + 1, i =>
    if !i.isConnected then ([], i)
    else match i.reader.next with
      | (.waiting, reader) => ([], { i with reader })
      | (.ended, reader) => ([.connectionLost none], { i with reader, isConnected := false })
      | (.failed e, reader) => ([.connectionLost (some e)], { i with reader, isConnected := false })
      | (.frame f, reader) =>
        let (event, i) := { i with reader }.accept f.envelope
        let (events, i) := readWith fuel i
        (event.toList ++ events, i)

/-- Reads everything that has arrived. A frame has a byte at least. -/
def read [Storage σ] (i : Inbox σ) : List ClientEvent × Inbox σ := readWith (i.reader.backlog + 1) i

/-- Something arrives from the relay. -/
def arrive (i : Inbox σ) (read : Read) : Inbox σ := { i with reader := i.reader.push read }

/-- Nothing more will arrive. -/
def finish (i : Inbox σ) : Inbox σ := { i with reader := i.reader.close }

end Inbox

end Mailroom
