import Mailroom.Path
import Mailroom.Sha256
import Mailroom.Storage
import Mailroom.Transfer.Table

/-!
# Receiving files

A receiver reassembles transfers and hands each finished one to its storage, below the download
directory. Storage is touched only then: first the directory is made sure of, and if that succeeds
the file is written.
-/

namespace Mailroom.Transfer

/-- A transfer that was reassembled and stored. -/
structure ReceivedFile where
  fromId : String
  fileName : String
  path : String
  bytes : Nat
  sha256 : String
  deriving DecidableEq

structure Receiver (σ : Type) where
  table : Table
  storage : σ
  downloadDir : String

namespace Receiver

variable {σ : Type}

def fresh (storage : σ) (downloadDir : String) : Receiver σ := ⟨.empty, storage, downloadDir⟩

def outputPath (r : Receiver σ) (key : Key) : String :=
  Path.outputPath r.downloadDir key.fromId key.fileName

def announce (r : Receiver σ) (a : Announcement) : Receiver σ × List Event :=
  let (table, events) := r.table.announce a
  ({ r with table }, events)

/-- Hands a finished transfer to the storage. -/
def store [Storage σ] (r : Receiver σ) (done : Completed) :
    Except Error ReceivedFile × Receiver σ :=
  let path := r.outputPath done.key
  match Storage.ensureDirectory r.storage r.downloadDir with
  | (.error reason, storage) => (.error (.storage done.key reason), { r with storage })
  | (.ok (), storage) =>
    match Storage.write storage path done.data with
    | (.error reason, storage) => (.error (.storage done.key reason), { r with storage })
    | (.ok (), storage) =>
      (.ok ⟨done.key.fromId, done.key.fileName, path, done.data.length, Sha256.hex done.data⟩,
        { r with storage })

/-- Takes a chunk in. The last one of a transfer gives the stored file. -/
def accept [Storage σ] (r : Receiver σ) (c : Chunk) :
    Except Error (Option ReceivedFile) × Receiver σ × List Event :=
  match r.table.accept c with
  | (.error e, table, events) => (.error e, { r with table }, events)
  | (.ok none, table, events) => (.ok none, { r with table }, events)
  | (.ok (some done), table, events) =>
    let (result, r) := { r with table }.store done
    (result.map some, r, events)

end Receiver

end Mailroom.Transfer
