import Mailroom.Proofs.Transfer.Openings
import Mailroom.Proofs.Transfer.Receiving

/-!
# What a receiver stores

A receiver and its storage change separately, and either call to the storage can fail. Here a
receiver works on files in memory, with all calls to them on record, where two scripts say which
calls fail. The statement is about every run of operations under any scripts: when the storage is
called and in which order, what is then at each path, and what an error leaves as it was.

What should be at a path is read off the run: the bytes of the transfer that was reported the last
of all those with this path. The storage is not looked at for this.
-/

namespace Mailroom

/-- A call to a storage, with the reason if it failed. -/
inductive StorageCall where
  | ensure (path : String) (failure? : Option String)
  | write (path : String) (data : Bytes) (failure? : Option String)
  deriving DecidableEq

namespace StorageCall

def isEnsure : StorageCall → Bool
  | ensure _ _ => true
  | write _ _ _ => false

def isWrite : StorageCall → Bool
  | ensure _ _ => false
  | write _ _ _ => true

end StorageCall

/-- A storage with the calls that were made to it, the latest last. -/
structure Noted (σ : Type) where
  inner : σ
  calls : List StorageCall

namespace Noted

/-- The reason why a call failed. -/
def failure? : Except String Unit → Option String
  | .ok () => none
  | .error reason => some reason

instance {σ : Type} [Storage σ] : Storage (Noted σ) where
  ensureDirectory s path :=
    let (result, inner) := Storage.ensureDirectory s.inner path
    (result, ⟨inner, s.calls ++ [.ensure path (failure? result)]⟩)
  write s path data :=
    let (result, inner) := Storage.write s.inner path data
    (result, ⟨inner, s.calls ++ [.write path data (failure? result)]⟩)

end Noted

/-- Files in memory, with scripts by which calls fail and with every call on record. -/
abbrev ScriptedMemory := Noted (Unreliable Memory)

namespace ScriptedMemory

def empty (ensureFailure? writeFailure? : Nat → Option String) : ScriptedMemory :=
  ⟨⟨.empty, 0, 0, ensureFailure?, writeFailure?⟩, []⟩

def contents (s : ScriptedMemory) : Memory := s.inner.inner

def ensures (s : ScriptedMemory) : Nat := s.calls.countP StorageCall.isEnsure

def writes (s : ScriptedMemory) : Nat := s.calls.countP StorageCall.isWrite

/-- How a call goes that fails for this reason, if there is one. -/
def outcome : Option String → Except String Unit
  | none => .ok ()
  | some reason => .error reason

/-- The scripts are these, and they are as far as there were calls. -/
structure Follows (ensureFailure? writeFailure? : Nat → Option String) (s : ScriptedMemory) :
    Prop where
  ensured_eq : s.inner.ensured = s.ensures
  written_eq : s.inner.written = s.writes
  ensureFailure_eq : s.inner.ensureFailure? = ensureFailure?
  writeFailure_eq : s.inner.writeFailure? = writeFailure?

variable {ensureFailure? writeFailure? : Nat → Option String} {s : ScriptedMemory}

theorem follows_empty (ensureFailure? writeFailure? : Nat → Option String) :
    (empty ensureFailure? writeFailure?).Follows ensureFailure? writeFailure? :=
  ⟨rfl, rfl, rfl, rfl⟩

theorem ensureDirectory_eq (s : ScriptedMemory) (path : String) :
    Storage.ensureDirectory s path =
      (outcome (s.inner.ensureFailure? s.inner.ensured),
        ⟨{ s.inner with ensured := s.inner.ensured + 1 },
          s.calls ++ [.ensure path (s.inner.ensureFailure? s.inner.ensured)]⟩) := by
  cases failing : s.inner.ensureFailure? s.inner.ensured <;>
    simp [Storage.ensureDirectory, failing, outcome, Noted.failure?]

theorem write_eq (s : ScriptedMemory) (path : String) (data : Bytes) :
    Storage.write s path data =
      (outcome (s.inner.writeFailure? s.inner.written),
        ⟨{ s.inner with
            written := s.inner.written + 1
            inner := if (s.inner.writeFailure? s.inner.written).isNone
              then s.contents.put path data else s.contents },
          s.calls ++ [.write path data (s.inner.writeFailure? s.inner.written)]⟩) := by
  cases failing : s.inner.writeFailure? s.inner.written <;>
    simp [Storage.write, failing, outcome, Noted.failure?, contents]

/-- What a call that makes sure of a directory does, by the script. -/
theorem ensureDirectory_cases (follows : s.Follows ensureFailure? writeFailure?)
    (path : String) :
    ∃ s' : ScriptedMemory,
      Storage.ensureDirectory s path = (outcome (ensureFailure? s.ensures), s') ∧
      s'.Follows ensureFailure? writeFailure? ∧ s'.writes = s.writes ∧
      s'.calls = s.calls ++ [.ensure path (ensureFailure? s.ensures)] ∧
      s'.contents = s.contents := by
  obtain ⟨ensured, written, rfl, rfl⟩ := follows
  rw [← ensured]
  refine ⟨_, ensureDirectory_eq s path, ⟨?_, ?_, rfl, rfl⟩, ?_, rfl, rfl⟩
  · simp [ensures, StorageCall.isEnsure, ensured]
  · simp [writes, StorageCall.isWrite, written]
  · simp [writes, StorageCall.isWrite]

/-- What a call that writes a file does, by the script. -/
theorem write_cases (follows : s.Follows ensureFailure? writeFailure?) (path : String)
    (data : Bytes) :
    ∃ s' : ScriptedMemory,
      Storage.write s path data = (outcome (writeFailure? s.writes), s') ∧
      s'.Follows ensureFailure? writeFailure? ∧
      s'.calls = s.calls ++ [.write path data (writeFailure? s.writes)] ∧
      s'.contents =
        if (writeFailure? s.writes).isNone then s.contents.put path data else s.contents := by
  obtain ⟨ensured, written, rfl, rfl⟩ := follows
  rw [← written]
  refine ⟨_, write_eq s path data, ⟨?_, ?_, rfl, rfl⟩, rfl, rfl⟩
  · simp [ensures, StorageCall.isEnsure, ensured]
  · simp [writes, StorageCall.isWrite, written]

end ScriptedMemory

namespace Memory

theorem read?_put_self (m : Memory) (path : String) (data : Bytes) :
    (m.put path data).read? path = some data :=
  m.files.get?_insert_self path data

theorem read?_put_of_ne (m : Memory) {path other : String} (data : Bytes) (apart : other ≠ path) :
    (m.put path data).read? other = m.read? other :=
  m.files.get?_insert_of_ne data apart

end Memory

namespace Transfer

/-- After these operations, the chunk ends an open transfer, the bytes of which are these. -/
def Finishes (os : List Operation) (c : Chunk) (data : Bytes) : Prop :=
  c.isLast ∧ (carried? c).isSome ∧
    ∃ a chunks, Opened os (.ofChunk c) a chunks ∧ data = carried (chunks ++ [c])

/-- What a chunk that ends no transfer is answered with after these operations. -/
inductive Passes {α : Type} (os : List Operation) (c : Chunk) : Except Error (Option α) → Prop
  | unregistered (closed : ¬ IsOpen os (.ofChunk c)) :
      Passes os c (.error (.unregisteredChunk (.ofChunk c) c.seq))
  | invalid {fault : Base64.Fault} (isOpen : IsOpen os (.ofChunk c))
      (undecodable : decodeData c.data = .error fault) :
      Passes os c (.error (.invalidChunkData (.ofChunk c) c.seq fault))
  | more (isOpen : IsOpen os (.ofChunk c)) (decodes : (carried? c).isSome)
      (notLast : c.isLast = false) : Passes os c (.ok none)

/-- What comes of bytes that are to be stored, where a script says which calls fail: there is no
directory and nothing is written, or the file cannot be written, or the file is there. -/
inductive Stores (ensureFailure? writeFailure? : Nat → Option String) (dir : String) (key : Key)
    (data : Bytes) (s s' : ScriptedMemory) : Except Error ReceivedFile → Prop
  | noDirectory {reason : String} (fails : ensureFailure? s.ensures = some reason)
      (calls_eq : s'.calls = s.calls ++ [.ensure dir (some reason)])
      (kept : s'.contents = s.contents) :
      Stores ensureFailure? writeFailure? dir key data s s' (.error (.storage key reason))
  | noFile {reason : String} (ensured : ensureFailure? s.ensures = none)
      (fails : writeFailure? s.writes = some reason)
      (calls_eq : s'.calls = s.calls ++ [.ensure dir none,
        .write (Path.outputPath dir key.fromId key.fileName) data (some reason)])
      (kept : s'.contents = s.contents) :
      Stores ensureFailure? writeFailure? dir key data s s' (.error (.storage key reason))
  | file (ensured : ensureFailure? s.ensures = none) (written : writeFailure? s.writes = none)
      (calls_eq : s'.calls = s.calls ++ [.ensure dir none,
        .write (Path.outputPath dir key.fromId key.fileName) data none])
      (put : s'.contents = s.contents.put (Path.outputPath dir key.fromId key.fileName) data) :
      Stores ensureFailure? writeFailure? dir key data s s' (.ok (.ofData dir key data))

/-- What there is of a transfer before and after a chunk of it that leads to an error. -/
def Leaves (c : Chunk) (slot slot' : Slot) : Error → Prop
  | .unregisteredChunk key seq => key = .ofChunk c ∧ seq = c.seq ∧ slot = none ∧ slot' = none
  | .invalidChunkData key seq fault =>
    key = .ofChunk c ∧ seq = c.seq ∧ decodeData c.data = .error fault ∧ slot.isSome ∧
      slot' = if c.isLast then none else slot
  | .storage key _ => key = .ofChunk c ∧ c.isLast ∧ slot.isSome ∧ slot' = none

/-- A chunk ends a transfer of some bytes if the table that took the operations says so. -/
theorem finishes_iff {os : List Operation} {c : Chunk} {data : Bytes} :
    Finishes os c data ↔
      ∃ size, ((Table.empty.after os).accept c).1 = .ok (some ⟨.ofChunk c, size, data⟩) := by
  simp only [Table.completed_after_iff]
  constructor
  · rintro ⟨last, decodes, a, chunks, opened, rfl⟩
    exact ⟨a.size, last, decodes, a, chunks, opened, rfl⟩
  · rintro ⟨size, last, decodes, a, chunks, opened, same⟩
    cases same
    exact ⟨last, decodes, a, chunks, opened, rfl⟩

theorem Finishes.unique {os : List Operation} {c : Chunk} {data data' : Bytes}
    (finishes : Finishes os c data) (finishes' : Finishes os c data') : data = data' := by
  obtain ⟨size, completed⟩ := finishes_iff.mp finishes
  obtain ⟨size', completed'⟩ := finishes_iff.mp finishes'
  cases completed.symm.trans completed'
  rfl

theorem passes_of_not_finishes {os : List Operation} {c : Chunk}
    (unfinished : ∀ data, ¬ Finishes os c data) :
    Passes os c ((Table.empty.after os).accept c).1 := by
  rw [Table.result_accept]
  by_cases isOpen : IsOpen os (.ofChunk c)
  · have found := Table.isSome_get?_after_iff.mpr isOpen
    cases decoded : decodeData c.data with
    | error fault =>
      rw [Slot.result_eq_invalid_iff.mpr ⟨found, decoded⟩]
      exact .invalid isOpen decoded
    | ok bytes =>
      have decodes : (carried? c).isSome := Option.isSome_of_eq_some (carried?_eq_some.mpr decoded)
      cases last : c.isLast with
      | false =>
        rw [Slot.result_eq_nothing_iff.mpr ⟨found, decodes, last⟩]
        exact .more isOpen decodes last
      | true =>
        obtain ⟨a, chunks, opened⟩ := isOpen
        exact absurd ⟨last, decodes, a, chunks, opened, rfl⟩ (unfinished _)
  · have none : (Table.empty.after os).get? (.ofChunk c) = none := by
      rw [← Option.not_isSome_iff_eq_none, Table.isSome_get?_after_iff]
      exact isOpen
    rw [Slot.result_eq_unregistered_iff.mpr none]
    exact .unregistered isOpen

theorem Slot.leaves_of_error {slot : Slot} {c : Chunk} {e : Error}
    (refused : (slot.accept c).1.result = .error e) : Leaves c slot (slot.accept c).2 e := by
  cases slot with
  | none =>
    simp only [Slot.accept, Except.error.injEq] at refused
    subst refused
    exact ⟨rfl, rfl, rfl, rfl⟩
  | some receipt =>
    cases decoded : decodeData c.data with
    | error fault =>
      cases last : c.isLast <;>
      · simp only [Slot.accept, decoded, last, Bool.false_eq_true, if_true, if_false,
          Except.error.injEq] at refused
        subst refused
        simp [Leaves, Slot.accept, decoded, last]
    | ok bytes => cases last : c.isLast <;> simp [Slot.accept, decoded, last] at refused

/-- A last chunk closes its transfer. -/
theorem Slot.accept_of_isLast (slot : Slot) {c : Chunk} (last : c.isLast = true) :
    (slot.accept c).2 = none := by
  cases slot with
  | none => rfl
  | some receipt => cases decoded : decodeData c.data <;> simp [Slot.accept, decoded, last]

namespace Receiver

section

variable {σ : Type} [Storage σ] {r : Receiver σ} {os : List Operation} {o : Operation} {c : Chunk}
  {path : String} {data : Bytes}

/-- The receiver after successive operations. -/
def after (r : Receiver σ) : List Operation → Receiver σ
  | [] => r
  | o :: os => (r.operate o).2.after os

theorem after_append (r : Receiver σ) (os later : List Operation) :
    r.after (os ++ later) = (r.after os).after later := by
  induction os generalizing r with
  | nil => rfl
  | cons o os ih => exact ih (r.operate o).2

theorem after_concat (r : Receiver σ) (os : List Operation) (o : Operation) :
    r.after (os ++ [o]) = ((r.after os).operate o).2 :=
  r.after_append os [o]

theorem handlings_concat (r : Receiver σ) (os : List Operation) (o : Operation) :
    r.handlings (os ++ [o]) = r.handlings os ++ [((r.after os).operate o).1] := by
  induction os generalizing r with
  | nil => rfl
  | cons first os ih => exact congrArg ((r.operate first).1 :: ·) (ih (r.operate first).2)

/-- A chunk that ends no transfer leaves the storage alone. -/
theorem accept_of_not_finishes (table_eq : r.table = Table.empty.after os)
    (unfinished : ∀ data, ¬ Finishes os c data) :
    (r.accept c).2.1.storage = r.storage ∧ Passes os c (r.accept c).1 := by
  have passes := passes_of_not_finishes unfinished
  rw [← table_eq] at passes
  rcases r.accept_cases c with ⟨e, refused, here⟩ | ⟨given, here⟩ | ⟨done, completed, -⟩
  · rw [refused] at passes
    rw [here]
    refine ⟨rfl, ?_⟩
    cases passes with
    | unregistered closed => exact .unregistered closed
    | invalid isOpen undecodable => exact .invalid isOpen undecodable
  · rw [given] at passes
    rw [here]
    cases passes with
    | more isOpen decodes notLast => exact ⟨rfl, .more isOpen decodes notLast⟩
  · rw [completed] at passes
    cases passes

/-- A chunk that ends a transfer has its bytes stored. -/
theorem accept_eq_store (table_eq : r.table = Table.empty.after os)
    (finishes : Finishes os c data) :
    ∃ size table, (r.accept c).1 = (store { r with table } ⟨.ofChunk c, size, data⟩).1.map some ∧
      (r.accept c).2.1 = (store { r with table } ⟨.ofChunk c, size, data⟩).2 := by
  obtain ⟨size, completed⟩ := finishes_iff.mp finishes
  rw [← table_eq] at completed
  rcases r.accept_cases c with ⟨e, refused, -⟩ | ⟨given, -⟩ | ⟨done, completed', here⟩
  · exact nomatch refused.symm.trans completed
  · exact nomatch given.symm.trans completed
  · cases completed'.symm.trans completed
    rw [here]
    exact ⟨size, _, rfl, rfl⟩

/-- Of all files that were reported in a run with this path, the last one is of a transfer that
had these bytes. -/
def LastReported (r : Receiver σ) (os : List Operation) (path : String) (data : Bytes) : Prop :=
  ∃ before c later file, os = before ++ .accept c :: later ∧ Finishes before c data ∧
    ((r.after before).accept c).1 = .ok (some file) ∧ file.path = path ∧
    ∀ h ∈ (r.after (before ++ [.accept c])).handlings later, ∀ other,
      h.result = .ok (some other) → other.path ≠ path

theorem not_lastReported_nil : ¬ LastReported r [] path data := by
  rintro ⟨before, c, later, file, split, -⟩
  simp at split

/-- An operation with which nothing is reported for a path. -/
theorem lastReported_concat_of_ne
    (other : ∀ file, ((r.after os).operate o).1.result = .ok (some file) → file.path ≠ path) :
    LastReported r (os ++ [o]) path data ↔ LastReported r os path data := by
  constructor
  · rintro ⟨before, c, later, file, split, finishes, reported, there, silent⟩
    rcases split_concat split with ⟨-, rfl, rfl⟩ | ⟨later, rfl, rfl⟩
    · exact absurd there (other file reported)
    · refine ⟨before, c, later, file, rfl, finishes, reported, there, ?_⟩
      intro h here
      apply silent h
      rw [handlings_concat]
      exact List.mem_append_left _ here
  · rintro ⟨before, c, later, file, rfl, finishes, reported, there, silent⟩
    refine ⟨before, c, later ++ [o], file, by simp, finishes, reported, there, ?_⟩
    intro h here
    rw [handlings_concat] at here
    rcases List.mem_append.mp here with earlier | now
    · exact silent h earlier
    · rw [List.mem_singleton.mp now, ← after_append, List.append_assoc]
      exact other

/-- An operation with which a file is reported. -/
theorem lastReported_concat_of_eq {file : ReceivedFile} {bytes : Bytes}
    (finishes : Finishes os c bytes) (reported : ((r.after os).accept c).1 = .ok (some file)) :
    LastReported r (os ++ [.accept c]) file.path data ↔ data = bytes := by
  constructor
  · rintro ⟨before, c', later, file', split, finishes', -, -, silent⟩
    rcases split_concat split with ⟨-, same, rfl⟩ | ⟨later, rfl, rfl⟩
    · cases same
      exact finishes'.unique finishes
    · refine absurd rfl (silent ((r.after (before ++ .accept c' :: later)).operate (.accept c)).1 ?_
        file reported)
      rw [handlings_concat, ← after_append, List.append_assoc]
      exact List.mem_append_right _ (List.mem_singleton_self _)
  · rintro rfl
    exact ⟨os, c, [], file, rfl, finishes, reported, rfl, nofun⟩

end

/-- A receiver that works on files in memory under these scripts. -/
def scripted (ensureFailure? writeFailure? : Nat → Option String) (dir : String) :
    Receiver ScriptedMemory :=
  fresh (.empty ensureFailure? writeFailure?) dir

section

variable {ensureFailure? writeFailure? : Nat → Option String} {r : Receiver ScriptedMemory}
  {c : Chunk} {data : Bytes} {os : List Operation} {dir path : String}

/-- A finished transfer is stored as the scripts have it. -/
theorem store_stores (follows : r.storage.Follows ensureFailure? writeFailure?)
    (done : Completed) :
    Stores ensureFailure? writeFailure? r.downloadDir done.key done.data r.storage
      (r.store done).2.storage (r.store done).1 ∧
    (r.store done).2.storage.Follows ensureFailure? writeFailure? := by
  obtain ⟨s', ensures, follows', writes_eq, calls_eq, same⟩ :=
    ScriptedMemory.ensureDirectory_cases follows r.downloadDir
  cases noDirectory : ensureFailure? r.storage.ensures with
  | some reason =>
    rw [noDirectory] at ensures calls_eq
    have stored : r.store done = (.error (.storage done.key reason), { r with storage := s' }) := by
      rw [store, ensures]
      rfl
    rw [stored]
    exact ⟨.noDirectory noDirectory calls_eq same, follows'⟩
  | none =>
    rw [noDirectory] at ensures calls_eq
    obtain ⟨s'', writes, follows'', calls_eq', contents_eq⟩ :=
      ScriptedMemory.write_cases follows' (r.outputPath done.key) done.data
    rw [writes_eq] at writes calls_eq' contents_eq
    rw [calls_eq, List.append_assoc] at calls_eq'
    rw [same] at contents_eq
    cases noFile : writeFailure? r.storage.writes with
    | some reason =>
      rw [noFile] at writes calls_eq' contents_eq
      have stored : r.store done =
          (.error (.storage done.key reason), { r with storage := s'' }) := by
        rw [store, ensures]
        dsimp only [ScriptedMemory.outcome]
        rw [writes]
        rfl
      rw [stored]
      exact ⟨.noFile noDirectory noFile calls_eq' contents_eq, follows''⟩
    | none =>
      rw [noFile] at writes calls_eq' contents_eq
      have stored : r.store done =
          (.ok (.ofData r.downloadDir done.key done.data), { r with storage := s'' }) := by
        rw [store, ensures]
        dsimp only [ScriptedMemory.outcome]
        rw [writes]
        rfl
      rw [stored]
      exact ⟨.file noDirectory noFile calls_eq' contents_eq, follows''⟩

/-- What a receiver keeps as it takes operations in. -/
structure Tracked (ensureFailure? writeFailure? : Nat → Option String) (dir : String)
    (os : List Operation) (r : Receiver ScriptedMemory) : Prop where
  follows : r.storage.Follows ensureFailure? writeFailure?
  table_eq : r.table = Table.empty.after os
  dir_eq : r.downloadDir = dir

/-- The bytes of a transfer are stored as the scripts have it. -/
theorem accept_of_finishes (tracked : Tracked ensureFailure? writeFailure? dir os r)
    (finishes : Finishes os c data) :
    ∃ result, (r.accept c).1 = result.map some ∧
      Stores ensureFailure? writeFailure? dir (.ofChunk c) data r.storage
        (r.accept c).2.1.storage result ∧
      (r.accept c).2.1.storage.Follows ensureFailure? writeFailure? := by
  obtain ⟨follows, table_eq, rfl⟩ := tracked
  obtain ⟨size, table, answered, rest⟩ := accept_eq_store table_eq finishes
  let closed : Receiver ScriptedMemory := { r with table }
  have same : closed.storage.Follows ensureFailure? writeFailure? := follows
  rw [answered, rest]
  exact ⟨_, rfl, store_stores same ⟨.ofChunk c, size, data⟩⟩

theorem tracked_after (ensureFailure? writeFailure? : Nat → Option String) (dir : String)
    (os : List Operation) :
    Tracked ensureFailure? writeFailure? dir os
      ((scripted ensureFailure? writeFailure? dir).after os) := by
  induction os using List.reverseRecOn with
  | nil => exact ⟨ScriptedMemory.follows_empty ensureFailure? writeFailure?, rfl, rfl⟩
  | append_singleton os o ih =>
    rw [after_concat]
    cases o with
    | announce a =>
      refine ⟨ih.follows, ?_, ih.dir_eq⟩
      rw [Table.after_concat, ← ih.table_eq]
      rfl
    | accept c =>
      refine ⟨?_, ?_, (downloadDir_accept _ c).trans ih.dir_eq⟩
      · by_cases finishes : ∃ data, Finishes os c data
        · obtain ⟨data, finishes⟩ := finishes
          obtain ⟨result, -, -, follows⟩ := accept_of_finishes ih finishes
          exact follows
        · obtain ⟨untouched, -⟩ := accept_of_not_finishes ih.table_eq (not_exists.mp finishes)
          exact untouched ▸ ih.follows
      · rw [Table.after_concat, ← ih.table_eq]
        exact table_accept _ c

/-- Either no file comes of a chunk and all files stay, or its transfer is put where it is said
to be. -/
theorem contents_accept (tracked : Tracked ensureFailure? writeFailure? dir os r) (c : Chunk) :
    ((∀ file, (r.accept c).1 ≠ .ok (some file)) ∧
      (r.accept c).2.1.storage.contents = r.storage.contents) ∨
    ∃ data, Finishes os c data ∧ (r.accept c).1 = .ok (some (.ofData dir (.ofChunk c) data)) ∧
      (r.accept c).2.1.storage.contents =
        r.storage.contents.put (ReceivedFile.ofData dir (.ofChunk c) data).path data := by
  by_cases finishes : ∃ data, Finishes os c data
  · obtain ⟨data, finishes⟩ := finishes
    obtain ⟨result, answered, stores, -⟩ := accept_of_finishes tracked finishes
    cases stores with
    | noDirectory fails calls_eq kept =>
      rw [answered]
      exact .inl ⟨nofun, kept⟩
    | noFile ensured fails calls_eq kept =>
      rw [answered]
      exact .inl ⟨nofun, kept⟩
    | file ensured written calls_eq put => exact .inr ⟨data, finishes, answered, put⟩
  · obtain ⟨untouched, passes⟩ :=
      accept_of_not_finishes tracked.table_eq (not_exists.mp finishes)
    refine .inl ⟨?_, congrArg ScriptedMemory.contents untouched⟩
    intro file reported
    rw [reported] at passes
    cases passes

/-- What is at a path is what was reported the last with this path. -/
theorem read?_after_iff :
    ((scripted ensureFailure? writeFailure? dir).after os).storage.contents.read? path =
        some data ↔
      LastReported (scripted ensureFailure? writeFailure? dir) os path data := by
  induction os using List.reverseRecOn with
  | nil => exact iff_of_false nofun not_lastReported_nil
  | append_singleton os o ih =>
    have tracked := tracked_after ensureFailure? writeFailure? dir os
    rw [after_concat]
    cases o with
    | announce a =>
      rw [lastReported_concat_of_ne, ← ih]
      · rfl
      · intro file given
        cases given
    | accept c =>
      rw [operate]
      rcases contents_accept tracked c with ⟨noFile, kept⟩ | ⟨bytes, finishes, reported, put⟩
      · rw [kept, ih, lastReported_concat_of_ne]
        intro file given
        exact absurd given (noFile file)
      · rw [put]
        by_cases here : path = (ReceivedFile.ofData dir (.ofChunk c) bytes).path
        · subst here
          rw [Memory.read?_put_self, lastReported_concat_of_eq finishes reported,
            Option.some_inj, eq_comm]
        · rw [Memory.read?_put_of_ne _ bytes here, ih, lastReported_concat_of_ne]
          intro file given same
          cases reported.symm.trans given
          exact here same.symm

/-- The table and the storage after an error. -/
theorem accept_of_error (tracked : Tracked ensureFailure? writeFailure? dir os r) {e : Error}
    (refused : (r.accept c).1 = .error e) :
    (r.accept c).2.1.storage.contents = r.storage.contents ∧
      (∀ key, key ≠ .ofChunk c → (r.accept c).2.1.table.get? key = r.table.get? key) ∧
      Leaves c (r.table.get? (.ofChunk c)) ((r.accept c).2.1.table.get? (.ofChunk c)) e := by
  obtain ⟨-, own, others⟩ := r.table.accept_cases c
  rw [table_accept, own]
  by_cases finishes : ∃ data, Finishes os c data
  · obtain ⟨data, finishes⟩ := finishes
    obtain ⟨result, answered, stores, -⟩ := accept_of_finishes tracked finishes
    obtain ⟨last, -, a, chunks, opened, -⟩ := finishes
    have isOpen : (r.table.get? (.ofChunk c)).isSome := by
      rw [tracked.table_eq, Table.isSome_get?_after_iff]
      exact ⟨a, chunks, opened⟩
    have leaves (reason : String) : Leaves c (r.table.get? (.ofChunk c))
        (Slot.accept (r.table.get? (.ofChunk c)) c).2 (.storage (.ofChunk c) reason) :=
      ⟨rfl, last, isOpen, Slot.accept_of_isLast _ last⟩
    rw [answered] at refused
    cases stores with
    | noDirectory fails calls_eq kept =>
      cases refused
      exact ⟨kept, others, leaves _⟩
    | noFile ensured fails calls_eq kept =>
      cases refused
      exact ⟨kept, others, leaves _⟩
    | file => cases refused
  · have unfinished : ∀ data, ¬ Finishes os c data := not_exists.mp finishes
    have passes := passes_of_not_finishes unfinished
    rw [← tracked.table_eq] at passes
    obtain ⟨untouched, -⟩ := accept_of_not_finishes tracked.table_eq unfinished
    refine ⟨congrArg ScriptedMemory.contents untouched, others, Slot.leaves_of_error ?_⟩
    rw [← Table.result_accept]
    rcases r.accept_cases c with ⟨e', refused', here⟩ | ⟨-, here⟩ | ⟨done, completed, -⟩
    · rw [here] at refused
      rwa [Except.error.inj refused] at refused'
    · rw [here] at refused
      cases refused
    · rw [completed] at passes
      cases passes

/-- A receiver and its storage agree on what these operations came to. -/
structure Agrees (ensureFailure? writeFailure? : Nat → Option String) (dir : String)
    (os : List Operation) (r : Receiver ScriptedMemory) : Prop where
  /-- At each path is what was reported the last. -/
  holds : ∀ path data, r.storage.contents.read? path = some data ↔
    LastReported (scripted ensureFailure? writeFailure? dir) os path data
  /-- An announcement does not touch the storage. -/
  announced : ∀ a, (r.announce a).1.storage = r.storage
  /-- Nor does a chunk that ends no transfer. -/
  unfinished : ∀ c, (∀ data, ¬ Finishes os c data) →
    (r.accept c).2.1.storage = r.storage ∧ Passes os c (r.accept c).1
  /-- A chunk that ends a transfer has its bytes stored. -/
  finished : ∀ c data, Finishes os c data → ∃ result, (r.accept c).1 = result.map some ∧
    Stores ensureFailure? writeFailure? dir (.ofChunk c) data r.storage
      (r.accept c).2.1.storage result
  /-- An error leaves the files and all other transfers as they were. -/
  refused : ∀ c e, (r.accept c).1 = .error e →
    (r.accept c).2.1.storage.contents = r.storage.contents ∧
      (∀ key, key ≠ .ofChunk c → (r.accept c).2.1.table.get? key = r.table.get? key) ∧
      Leaves c (r.table.get? (.ofChunk c)) ((r.accept c).2.1.table.get? (.ofChunk c)) e

/-- After any operations, under any scripts, the receiver and its storage agree. -/
theorem storage_agrees_with_reports (ensureFailure? writeFailure? : Nat → Option String)
    (dir : String) (os : List Operation) :
    Agrees ensureFailure? writeFailure? dir os
      ((scripted ensureFailure? writeFailure? dir).after os) := by
  have tracked := tracked_after ensureFailure? writeFailure? dir os
  constructor
  case holds =>
    intro path data
    exact read?_after_iff
  case announced =>
    intro a
    rfl
  case unfinished =>
    intro c
    exact accept_of_not_finishes tracked.table_eq
  case finished =>
    intro c data finishes
    obtain ⟨result, answered, stores, -⟩ := accept_of_finishes tracked finishes
    exact ⟨result, answered, stores⟩
  case refused =>
    intro c e
    exact accept_of_error tracked

end

end Receiver

end Transfer

end Mailroom
