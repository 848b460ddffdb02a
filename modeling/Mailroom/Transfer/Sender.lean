import Mailroom.Frame.Reader
import Mailroom.Storage.Disk
import Mailroom.Transfer

/-!
# Sending files

A sender cuts a source of bytes into chunks. Every chunk but the last two is full, whatever the
sizes of the reads are that the source gives; the one before the last holds what is left; the last
one is empty. A failed read is reported, and what had been read for that chunk is lost with it.
-/

namespace Mailroom.Transfer

structure Sender where
  key : Key
  toId : Option String
  chunkSize : Nat
  /-- Bytes that are read and not sent. -/
  pending : Bytes
  /-- Reads to come. -/
  reads : List Read
  nextSeq : UInt64
  bytesSent : UInt64
  isFinished : Bool

/-- What asking for a chunk gives. -/
inductive Sending where
  | chunk (c : Chunk)
  /-- The last chunk has been given before. -/
  | ended
  | failed (reason : String)
  deriving DecidableEq

namespace Sender

/-- A sender of what a source gives. An empty recipient is none. -/
def ofReads (reads : List Read) (key : Key) (toId : Option String) (chunkSize : Nat) : Sender :=
  { key, toId := toId.filter (· ≠ ""), chunkSize := max chunkSize 1, pending := [], reads,
    nextSeq := 0, bytesSent := 0, isFinished := false }

def announcement (s : Sender) (size : UInt64) : Announcement :=
  ⟨s.key.fromId, s.toId, s.key.fileName, size, UInt64.ofNat s.chunkSize⟩

/-- Reads up to `room` more bytes after the pieces that are already gathered, last piece first.
Gives what was gathered and the source after it. -/
def fill (room : Nat) (gathered : List Bytes) (pending : Bytes) :
    List Read → Except String Bytes × Bytes × List Read
  | [] =>
    (.ok (pending.take room :: gathered).reverse.flatten, pending.drop room, [])
  | read :: reads =>
    let taken := pending.take room
    if taken.length = room then
      (.ok (taken :: gathered).reverse.flatten, pending.drop room, read :: reads)
    else match read with
      | .bytes b => fill (room - taken.length) (taken :: gathered) b reads
      | .failure reason => (.error reason, [], reads)

def chunk (s : Sender) (data : Bytes) (isLast : Bool) : Chunk :=
  ⟨s.key.fromId, s.toId, s.key.fileName, s.nextSeq, encodeData data, isLast⟩

/-- The next chunk. -/
def next (s : Sender) : Sending × Sender × List Event :=
  if s.isFinished then (.ended, s, [])
  else match fill s.chunkSize [] s.pending s.reads with
    | (.error reason, pending, reads) => (.failed reason, { s with pending, reads }, [])
    | (.ok [], pending, reads) =>
      let chunks := s.nextSeq + 1
      (.chunk (s.chunk [] true),
        { s with pending, reads, nextSeq := chunks, isFinished := true },
        [.sendComplete s.bytesSent chunks])
    | (.ok data, pending, reads) =>
      (.chunk (s.chunk data false),
        { s with
          pending, reads
          nextSeq := s.nextSeq + 1
          bytesSent := s.bytesSent + UInt64.ofNat data.length },
        [.chunkSent s.nextSeq data.length])

end Sender

/-- Why a file cannot be sent. -/
inductive OpenError where
  | noFileName (path : String)
  | notOpened (path : String) (reason : Disk.Error)
  deriving DecidableEq

def OpenError.message : OpenError → String
  | .noFileName path => path ++ " has no usable file name"
  | .notOpened path reason => "failed to open " ++ path ++ ": " ++ reason.message

/-- The size a directory is given, whatever is in it. -/
def directorySize : UInt64 := 4096

/-- Opens a file for sending. It is announced under the last name of its path and with its size. -/
def openFile (d : Disk) (path fromId : String) (toId : Option String) :
    Except OpenError (Announcement × Sender) :=
  match Path.fileName? path with
  | none => .error (.noFileName path)
  | some name =>
    let sender (reads : List Read) := Sender.ofReads reads ⟨fromId, name⟩ toId defaultChunkSize
    match d.open? path with
    | .error e => .error (.notOpened path e)
    | .ok (.file data) =>
      let s := sender [.bytes data]
      .ok (s.announcement (UInt64.ofNat data.length), s)
    | .ok .directory =>
      let s := sender [.failure Disk.Error.isDirectory.message]
      .ok (s.announcement directorySize, s)

end Mailroom.Transfer
