import Mailroom.Envelope
import Mailroom.Text.Base64
import Mailroom.Text.Utf8

/-!
# Transfers

A file travels as an announcement followed by chunks with sequence numbers from zero. The last chunk
says that it is the last; a sender makes it an empty one. Transfers are told apart by who sends them
and what the file is called, and whatever happens to one is an event in a log.
-/

namespace Mailroom.Transfer

/-- Bytes of a file in one chunk, unless said otherwise. -/
def defaultChunkSize : Nat := 1024

def encodeData (data : Bytes) : String := (Utf8.decode? (Base64.encode data)).getD ""

def decodeData (data : String) : Except Base64.Fault Bytes := Base64.decode (Utf8.encode data)

structure Key where
  fromId : String
  fileName : String
  deriving DecidableEq, Repr

def Key.display (k : Key) : String := k.fromId ++ "/" ++ k.fileName

def Key.ofAnnouncement (a : Announcement) : Key := ⟨a.fromId, a.name⟩

def Key.ofChunk (c : Chunk) : Key := ⟨c.fromId, c.fileName⟩

inductive Event where
  /-- An announcement opened a transfer. -/
  | announced (size chunkSize : UInt64)
  /-- An unfinished transfer was dropped, with the bytes received so far. -/
  | abandoned (received : Nat)
  | chunkAppended (seq : UInt64) (size : Nat)
  | outOfOrder (expected got : UInt64)
  | invalidChunk (seq : UInt64) (fault : Base64.Fault)
  /-- A chunk of a transfer that is not open. -/
  | unknownTransfer (seq : UInt64)
  | completed (bytes : Nat) (announcedSize : UInt64)
  | chunkSent (seq : UInt64) (size : Nat)
  | sendComplete (bytes : UInt64) (chunks : UInt64)
  deriving DecidableEq

def Event.display : Event → String
  | .announced size chunkSize =>
    "announced size=" ++ toString size ++ " chunk_size=" ++ toString chunkSize
  | .abandoned received => "abandoned received=" ++ toString received
  | .chunkAppended seq size => "chunk_appended seq=" ++ toString seq ++ " size=" ++ toString size
  | .outOfOrder expected got =>
    "out_of_order expected=" ++ toString expected ++ " got=" ++ toString got
  | .invalidChunk seq fault => "invalid_chunk seq=" ++ toString seq ++ ": " ++ fault.message
  | .unknownTransfer seq => "unknown_transfer seq=" ++ toString seq
  | .completed bytes size =>
    "completed bytes=" ++ toString bytes ++ " announced=" ++ toString size
  | .chunkSent seq size => "chunk_sent seq=" ++ toString seq ++ " size=" ++ toString size
  | .sendComplete bytes chunks =>
    "send_complete bytes=" ++ toString bytes ++ " chunks=" ++ toString chunks

/-- Which side of a transfer a log entry comes from. -/
inductive Side where
  | sender
  | receiver
  deriving DecidableEq

def Side.display : Side → String
  | .sender => "sender"
  | .receiver => "receiver"

structure LogEntry where
  side : Side
  key : Key
  event : Event
  deriving DecidableEq

def LogEntry.display (e : LogEntry) : String :=
  e.side.display ++ " " ++ e.key.display ++ ": " ++ e.event.display

/-- Why a chunk leads to nothing. -/
inductive Error where
  | unregisteredChunk (key : Key) (seq : UInt64)
  | invalidChunkData (key : Key) (seq : UInt64) (fault : Base64.Fault)
  | storage (key : Key) (reason : String)
  deriving DecidableEq

def Error.message : Error → String
  | .unregisteredChunk key seq =>
    "chunk " ++ toString seq ++ " for " ++ key.display ++ " has no matching announcement"
  | .invalidChunkData key seq fault =>
    "chunk " ++ toString seq ++ " for " ++ key.display ++ " is not valid base64: " ++ fault.message
  | .storage key reason => "failed to store " ++ key.display ++ ": " ++ reason

end Mailroom.Transfer
