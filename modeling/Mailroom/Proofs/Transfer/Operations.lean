import Mailroom.Transfer.Table

/-!
# Operations on transfers

Announcements and chunks come to a table in any order and under any keys, and each is answered by a
report. What is reported under one key depends on the operations under that key alone: the table
can be replaced by the single receipt that it has there.
-/

namespace Mailroom.Transfer

inductive Operation where
  | announce (a : Announcement)
  | accept (c : Chunk)
  deriving DecidableEq

namespace Operation

/-- The transfer that an operation is about. -/
def key : Operation → Key
  | announce a => .ofAnnouncement a
  | accept c => .ofChunk c

/-- What an envelope is to a receiver of files. -/
def ofEnvelope? : Envelope → Option Operation
  | .announcement a => some (.announce a)
  | .chunk c => some (.accept c)
  | _ => none

end Operation

/-- What comes of an operation: its result, and the events that are logged under its key. -/
structure Report where
  key : Key
  result : Except Error (Option Completed)
  events : List Event

namespace Table

def operate (t : Table) : Operation → Report × Table
  | .announce a =>
    let (t, events) := t.announce a
    (⟨.ofAnnouncement a, .ok none, events⟩, t)
  | .accept c =>
    let (result, t, events) := t.accept c
    (⟨.ofChunk c, result, events⟩, t)

/-- The reports of successive operations. -/
def reports (t : Table) : List Operation → List Report
  | [] => []
  | o :: os => (t.operate o).1 :: (t.operate o).2.reports os

end Table

/-- What a table has under a key: a receipt if the transfer is open. -/
abbrev Slot := Option Receipt

namespace Slot

/-- What an announcement is answered with where this is there under its key. -/
def announce (slot : Slot) (a : Announcement) : Report × Slot :=
  let dropped := match slot with
    | some stale => [Event.abandoned stale.data.length]
    | none => []
  (⟨.ofAnnouncement a, .ok none, dropped ++ [.announced a.size a.chunkSize]⟩, some ⟨a.size, [], 0⟩)

/-- The event of a chunk that is not the one that is due. -/
def disorder (due seq : UInt64) : List Event := if seq = due then [] else [.outOfOrder due seq]

/-- What bytes that are appended are noted as. -/
def appended (seq : UInt64) (bytes : Bytes) : List Event :=
  if bytes = [] then [] else [.chunkAppended seq bytes.length]

def accept (slot : Slot) (c : Chunk) : Report × Slot :=
  match slot with
  | none =>
    (⟨.ofChunk c, .error (.unregisteredChunk (.ofChunk c) c.seq), [.unknownTransfer c.seq]⟩, none)
  | some receipt =>
    match decodeData c.data with
    | .error fault =>
      let noted := disorder receipt.nextSeq c.seq ++ [.invalidChunk c.seq fault]
      let error := Error.invalidChunkData (.ofChunk c) c.seq fault
      if c.isLast then
        (⟨.ofChunk c, .error error, noted ++ [.abandoned receipt.data.length]⟩, none)
      else (⟨.ofChunk c, .error error, noted⟩, some receipt)
    | .ok bytes =>
      let data := receipt.data ++ bytes
      let noted := disorder receipt.nextSeq c.seq ++ appended c.seq bytes
      if c.isLast then
        (⟨.ofChunk c, .ok (some ⟨.ofChunk c, receipt.announcedSize, data⟩),
          noted ++ [.completed data.length receipt.announcedSize]⟩, none)
      else (⟨.ofChunk c, .ok none, noted⟩, some ⟨receipt.announcedSize, data, seqAfter c.seq⟩)

def operate (slot : Slot) : Operation → Report × Slot
  | .announce a => slot.announce a
  | .accept c => slot.accept c

def reports (slot : Slot) : List Operation → List Report
  | [] => []
  | o :: os => (slot.operate o).1 :: Slot.reports (slot.operate o).2 os

end Slot

namespace Table

@[simp]
theorem get?_erase_self (t : Table) (key : Key) : (t.erase key).get? key = none :=
  t.receipts.get?_erase_self key

theorem get?_erase_of_ne (t : Table) {key other : Key} (h : other ≠ key) :
    (t.erase key).get? other = t.get? other :=
  t.receipts.get?_erase_of_ne h

@[simp]
theorem get?_insert_self (t : Table) (key : Key) (receipt : Receipt) :
    (t.insert key receipt).get? key = some receipt :=
  t.receipts.get?_insert_self key receipt

theorem get?_insert_of_ne (t : Table) {key other : Key} (receipt : Receipt) (h : other ≠ key) :
    (t.insert key receipt).get? other = t.get? other :=
  t.receipts.get?_insert_of_ne receipt h

/-- What a chunk does to a table, by what the table has under the key of the chunk. -/
theorem accept_cases (t : Table) (c : Chunk) :
    (Slot.accept (t.get? (.ofChunk c)) c).1 = ⟨.ofChunk c, (t.accept c).1, (t.accept c).2.2⟩ ∧
    (t.accept c).2.1.get? (.ofChunk c) = (Slot.accept (t.get? (.ofChunk c)) c).2 ∧
    ∀ other, other ≠ .ofChunk c → (t.accept c).2.1.get? other = t.get? other := by
  cases receipt : t.get? (.ofChunk c) with
  | none => simp [accept, Slot.accept, receipt]
  | some r =>
    cases decoded : decodeData c.data with
    | error fault =>
      by_cases last : c.isLast
      · refine ⟨?_, ?_, fun other apart => ?_⟩
        · simp [accept, Slot.accept, Slot.disorder, receipt, decoded, last]
        · simp [accept, Slot.accept, receipt, decoded, last]
        · simpa [accept, receipt, decoded, last] using t.get?_erase_of_ne apart
      · simp [accept, Slot.accept, Slot.disorder, receipt, decoded, last]
    | ok bytes =>
      by_cases last : c.isLast
      · refine ⟨?_, ?_, fun other apart => ?_⟩
        · simp [accept, append, Slot.accept, Slot.disorder, Slot.appended, receipt, decoded, last]
        · simp [accept, append, Slot.accept, receipt, decoded, last]
        · simpa [accept, append, receipt, decoded, last] using t.get?_erase_of_ne apart
      · refine ⟨?_, ?_, fun other apart => ?_⟩
        · simp [accept, append, Slot.accept, Slot.disorder, Slot.appended, receipt, decoded, last]
        · simp [accept, append, Slot.accept, receipt, decoded, last]
        · simpa [accept, append, receipt, decoded, last] using t.get?_insert_of_ne _ apart

/-- An operation is answered by what there is under its key. -/
theorem operate_report (t : Table) (o : Operation) :
    (t.operate o).1 = (Slot.operate (t.get? o.key) o).1 := by
  cases o with
  | announce a =>
    simp only [operate, Operation.key, announce, Slot.operate]
    cases t.get? (.ofAnnouncement a) <;> rfl
  | accept c => exact (t.accept_cases c).1.symm

theorem get?_operate_self (t : Table) (o : Operation) :
    (t.operate o).2.get? o.key = (Slot.operate (t.get? o.key) o).2 := by
  cases o with
  | announce a =>
    simp only [operate, Operation.key, announce, Slot.operate, Slot.announce]
    exact t.get?_insert_self _ _
  | accept c => exact (t.accept_cases c).2.1

theorem get?_operate_of_ne (t : Table) {o : Operation} {key : Key} (apart : key ≠ o.key) :
    (t.operate o).2.get? key = t.get? key := by
  cases o with
  | announce a => exact t.get?_insert_of_ne _ apart
  | accept c => exact (t.accept_cases c).2.2 key apart

theorem key_operate (t : Table) (o : Operation) : (t.operate o).1.key = o.key := by
  cases o <;> rfl

/-- The reports under a key are what the operations under that key lead to by themselves. -/
theorem reports_of_key (t : Table) (os : List Operation) (key : Key) :
    (t.reports os).filter (fun r => r.key = key) =
      Slot.reports (t.get? key) (os.filter fun o => o.key = key) := by
  induction os generalizing t with
  | nil => rfl
  | cons o os ih =>
    have tail := ih (t.operate o).2
    by_cases same : o.key = key
    · subst same
      rw [get?_operate_self] at tail
      have shown : ((t.operate o).1.key = o.key) := key_operate t o
      rw [reports, List.filter_cons_of_pos (by simpa using shown), tail,
        List.filter_cons_of_pos (by simp), Slot.reports, operate_report]
    · rw [get?_operate_of_ne t (Ne.symm same)] at tail
      have hidden : (t.operate o).1.key ≠ key := key_operate t o ▸ same
      rw [reports, List.filter_cons_of_neg (by simpa using hidden), tail,
        List.filter_cons_of_neg (by simpa using same)]

end Table

end Mailroom.Transfer
