import Mailroom.Bytes
import Mailroom.Keyed

/-!
# Storage

Where finished files go. A storage can make sure that a directory exists and can write a file; both
may fail, with a reason. The memory keeps every file at the path it was written to and never fails.
-/

namespace Mailroom

class Storage (σ : Type) where
  ensureDirectory : σ → (path : String) → Except String Unit × σ
  write : σ → (path : String) → (data : Bytes) → Except String Unit × σ

/-- Files by path, the latest first. -/
structure Memory where
  files : Keyed String Bytes
  deriving DecidableEq

namespace Memory

def empty : Memory := ⟨.empty⟩

def read? (m : Memory) (path : String) : Option Bytes := m.files.get? path

def put (m : Memory) (path : String) (data : Bytes) : Memory := ⟨m.files.insert path data⟩

instance : Storage Memory where
  ensureDirectory m _ := (.ok (), m)
  write m path data := (.ok (), m.put path data)

end Memory

/-- A storage whose calls fail as two scripts say: call number `n` of a kind fails if its script has
a reason at `n`. A call that fails does nothing. -/
structure Unreliable (σ : Type) where
  inner : σ
  ensured : Nat
  written : Nat
  ensureFailure? : Nat → Option String
  writeFailure? : Nat → Option String

namespace Unreliable

instance {σ : Type} [Storage σ] : Storage (Unreliable σ) where
  ensureDirectory u path :=
    let next := { u with ensured := u.ensured + 1 }
    match u.ensureFailure? u.ensured with
    | some reason => (.error reason, next)
    | none =>
      let (result, inner) := Storage.ensureDirectory u.inner path
      (result, { next with inner })
  write u path data :=
    let next := { u with written := u.written + 1 }
    match u.writeFailure? u.written with
    | some reason => (.error reason, next)
    | none =>
      let (result, inner) := Storage.write u.inner path data
      (result, { next with inner })

end Unreliable

end Mailroom
