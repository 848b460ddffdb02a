import Mailroom.Keyed
import Mailroom.Transfer

/-!
# Reassembly

The transfers a client is receiving, and what has arrived of each. Chunks are appended in the order
in which they arrive; a sequence number out of order is noted in the log and otherwise ignored. A
chunk that does not decode is left out, and ends its transfer only if it is the last one.
-/

namespace Mailroom.Transfer

/-- A transfer that is being received. -/
structure Receipt where
  announcedSize : UInt64
  data : Bytes
  /-- The sequence number that is due. -/
  nextSeq : UInt64
  deriving DecidableEq

/-- A transfer of which the last chunk has arrived. -/
structure Completed where
  key : Key
  announcedSize : UInt64
  data : Bytes
  deriving DecidableEq

/-- The open transfers, each under a key of its own. -/
structure Table where
  receipts : Keyed Key Receipt
  deriving DecidableEq

/-- The sequence number after another one; the largest is followed by itself. -/
def seqAfter (seq : UInt64) : UInt64 := if seq = 0xFFFFFFFFFFFFFFFF then seq else seq + 1

namespace Table

def empty : Table := ⟨.empty⟩

def get? (t : Table) (key : Key) : Option Receipt := t.receipts.get? key

def erase (t : Table) (key : Key) : Table := ⟨t.receipts.erase key⟩

def insert (t : Table) (key : Key) (receipt : Receipt) : Table := ⟨t.receipts.insert key receipt⟩

def inProgress (t : Table) : Nat := t.receipts.size

def contains (t : Table) (key : Key) : Bool := t.receipts.contains key

/-- Opens a transfer. An unfinished one under the same key is dropped. -/
def announce (t : Table) (a : Announcement) : Table × List Event :=
  let key := Key.ofAnnouncement a
  let dropped := match t.get? key with
    | some stale => [Event.abandoned stale.data.length]
    | none => []
  (t.insert key ⟨a.size, [], 0⟩, dropped ++ [.announced a.size a.chunkSize])

/-- Appends decoded bytes to an open transfer, and closes it if they are the last. -/
def append (t : Table) (key : Key) (receipt : Receipt) (c : Chunk) (bytes : Bytes) :
    Option Completed × Table × List Event :=
  let data := receipt.data ++ bytes
  let appended := if bytes = [] then [] else [Event.chunkAppended c.seq bytes.length]
  if c.isLast then
    (some ⟨key, receipt.announcedSize, data⟩, t.erase key,
      appended ++ [.completed data.length receipt.announcedSize])
  else (none, t.insert key ⟨receipt.announcedSize, data, seqAfter c.seq⟩, appended)

/-- Takes a chunk in. A last chunk that decodes gives the finished transfer. -/
def accept (t : Table) (c : Chunk) : Except Error (Option Completed) × Table × List Event :=
  let key := Key.ofChunk c
  match t.get? key with
  | none => (.error (.unregisteredChunk key c.seq), t, [.unknownTransfer c.seq])
  | some receipt =>
    let disorder :=
      if c.seq = receipt.nextSeq then [] else [Event.outOfOrder receipt.nextSeq c.seq]
    match decodeData c.data with
    | .error fault =>
      let noted := disorder ++ [.invalidChunk c.seq fault]
      let error := Error.invalidChunkData key c.seq fault
      if c.isLast then
        (.error error, t.erase key, noted ++ [.abandoned receipt.data.length])
      else (.error error, t, noted)
    | .ok bytes =>
      let (done, t, events) := t.append key receipt c bytes
      (.ok done, t, disorder ++ events)

end Table

end Mailroom.Transfer
