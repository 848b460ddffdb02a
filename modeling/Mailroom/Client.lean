import Mailroom.Client.IdSource
import Mailroom.Client.Inbox
import Mailroom.Frame.Writer
import Mailroom.Network
import Mailroom.Transfer.Sender

/-!
# Clients

A client connects to a relay, registers there under an id of its own, and sends chats and files.
What it sends goes through one writer, an envelope at a time. When it has closed its sending side
nothing more can be sent, but it still receives.
-/

namespace Mailroom

structure Client (σ : Type) where
  identity : Identity
  /-- The sending side of the connection. -/
  socket : Sink
  inbox : Inbox σ

/-- Why something was not sent. -/
inductive SendError where
  | notSent (kind : Kind) (reason : FrameError)
  | notOpened (reason : Transfer.OpenError)
  | notRead (path reason : String)
  deriving DecidableEq

/-- A transport error is followed by its cause. -/
def SendError.message : SendError → String
  | .notSent kind reason =>
    let cause := match reason with
      | .transport cause => ": " ++ cause
      | _ => ""
    "failed to send " ++ kind.tag ++ ": " ++ reason.message ++ cause
  | .notOpened reason => reason.message
  | .notRead path reason => "failed to read " ++ path ++ ": " ++ reason

namespace Client

variable {σ : Type}

def connectFailure (e : ConnectError) : String := "failed to connect to relay: " ++ e.message

/-- Connects, if a relay listens, and registers. -/
def connect (network : Network) (isListening : Bool) (identity : Identity) (storage : σ)
    (downloadDir : String) : Except ConnectError (Client σ) := do
  network.connect isListening
  let (_, socket) := Sink.unbounded.send (.registration identity)
  return ⟨identity, socket, .fresh identity.id storage downloadDir⟩

def send (c : Client σ) (e : Envelope) : Except SendError Unit × Client σ :=
  let (result, socket) := c.socket.send e
  (result.mapError (.notSent e.kind), { c with socket })

def sendChat (c : Client σ) (toId text : String) : Except SendError Unit × Client σ :=
  c.send (.chat ⟨c.identity.id, some toId, text⟩)

def broadcast (c : Client σ) (text : String) : Except SendError Unit × Client σ :=
  c.send (.chat ⟨c.identity.id, none, text⟩)

/-- Sends up to `fuel` chunks of a file. Gives how many bytes of the file have been sent. -/
def sendChunks (path : String) : (fuel : Nat) → Transfer.Sender → Client σ →
    Except SendError UInt64 × Client σ
  | 0, sender, c => (.ok sender.bytesSent, c)
  | fuel + 1, sender, c =>
    match sender.next with
    | (.ended, sender, _) => (.ok sender.bytesSent, c)
    | (.failed reason, _, _) => (.error (.notRead path reason), c)
    | (.chunk chunk, sender, _) =>
      match c.send (.chunk chunk) with
      | (.error e, c) => (.error e, c)
      | (.ok (), c) => sendChunks path fuel sender c

/-- Sends a file: its announcement, then its chunks. Each but the last has a byte at least. -/
def sendFile (c : Client σ) (d : Disk) (path : String) (toId : Option String) :
    Except SendError UInt64 × Client σ :=
  match Transfer.openFile d path c.identity.id toId with
  | .error e => (.error (.notOpened e), c)
  | .ok (announcement, sender) =>
    match c.send (.announcement announcement) with
    | (.error e, c) => (.error e, c)
    | (.ok (), c) => sendChunks path (announcement.size.toNat + 2) sender c

/-- Closes the sending side. -/
def close (c : Client σ) : Client σ := { c with socket := c.socket.breakOff brokenPipe }
where
  /-- Why a write to a closed side fails. -/
  brokenPipe : String := "Broken pipe (os error 32)"

end Client

end Mailroom
