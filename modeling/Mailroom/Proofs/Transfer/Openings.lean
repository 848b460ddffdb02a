import Mailroom.Proofs.Transfer.Operations
import Mathlib.Data.List.Induction

/-!
# What a table makes of its history

Which transfers are open after some operations, and how the next chunk is answered, is told here by
the operations alone. A transfer is open if no last chunk has come since it was announced the last
time. What it holds is the bytes of all chunks that have come since then and that decode, and the
number that is due follows that of the last one of these. No map of receipts is kept for this.

The main statement is that a table which was empty at first agrees with this reading of its history.
-/

namespace Mailroom.Transfer

/-- The bytes that a chunk carries, if it decodes. -/
def carried? (c : Chunk) : Option Bytes := (decodeData c.data).toOption

/-- The bytes of all chunks that decode, in the order in which they came. -/
def carried (chunks : List Chunk) : Bytes := (chunks.filterMap carried?).flatten

/-- The number that is due after these chunks. The largest number is followed by itself. -/
def dueAfter (chunks : List Chunk) : Nat :=
  match (chunks.filter fun c => (carried? c).isSome).getLast? with
  | none => 0
  | some c => min (c.seq.toNat + 1) (UInt64.size - 1)

/-- After these operations a transfer is open: it was announced as `a` the last time, and the
operations on it that followed are these chunks, none of which is a last one. -/
structure Opened (os : List Operation) (key : Key) (a : Announcement) (chunks : List Chunk) :
    Prop where
  since : ∃ before after, os = before ++ .announce a :: after ∧
    after.filter (fun o => o.key = key) = chunks.map .accept
  named : .ofAnnouncement a = key
  unfinished : ∀ c ∈ chunks, c.isLast = false

def IsOpen (os : List Operation) (key : Key) : Prop := ∃ a chunks, Opened os key a chunks

/-- What there is of a transfer that was announced as `a` and of which these chunks have come. -/
def Receipt.ofChunks (a : Announcement) (chunks : List Chunk) : Receipt :=
  ⟨a.size, carried chunks, UInt64.ofNat (dueAfter chunks)⟩

/-- An element of a list that has another one added at its end is that one or was there before. -/
theorem split_concat {α : Type} {xs before after : List α} {x y : α}
    (split : xs ++ [x] = before ++ y :: after) :
    (after = [] ∧ y = x ∧ before = xs) ∨
      ∃ earlier, after = earlier ++ [x] ∧ xs = before ++ y :: earlier := by
  rcases List.eq_nil_or_concat after with rfl | ⟨earlier, last, rfl⟩
  · obtain ⟨rfl, same⟩ := List.append_inj' split rfl
    cases same
    exact .inl ⟨rfl, rfl, rfl⟩
  · rw [List.concat_eq_append, ← List.cons_append, ← List.append_assoc] at split
    obtain ⟨rfl, same⟩ := List.append_inj' split rfl
    cases same
    exact .inr ⟨earlier, List.concat_eq_append, rfl⟩

section

variable {os : List Operation} {o : Operation} {key : Key} {a a' : Announcement}
  {chunks : List Chunk} {c : Chunk} {bytes : Bytes} {fault : Base64.Fault}

theorem carried?_eq_some : carried? c = some bytes ↔ decodeData c.data = .ok bytes := by
  rw [carried?]
  cases decodeData c.data <;> simp [Except.toOption]

theorem carried?_eq_none : carried? c = none ↔ ∃ fault, decodeData c.data = .error fault := by
  rw [carried?]
  cases decodeData c.data <;> simp [Except.toOption]

theorem carried_concat (chunks : List Chunk) (c : Chunk) :
    carried (chunks ++ [c]) = carried chunks ++ (carried? c).getD [] := by
  rw [carried, List.filterMap_append, List.flatten_append, ← carried, List.filterMap_cons]
  cases carried? c <;> simp

theorem dueAfter_concat (chunks : List Chunk) (c : Chunk) :
    dueAfter (chunks ++ [c]) =
      if (carried? c).isSome then min (c.seq.toNat + 1) (UInt64.size - 1) else dueAfter chunks := by
  rw [dueAfter, List.filter_append]
  by_cases decodes : (carried? c).isSome
  · simp [decodes]
  · simp [decodes, dueAfter]

theorem dueAfter_lt (chunks : List Chunk) : dueAfter chunks < UInt64.size := by
  have positive : 0 < UInt64.size := by decide
  rw [dueAfter]
  split <;> omega

theorem toNat_nextSeq (a : Announcement) (chunks : List Chunk) :
    (Receipt.ofChunks a chunks).nextSeq.toNat = dueAfter chunks :=
  UInt64.toNat_ofNat_of_lt' (dueAfter_lt chunks)

theorem seqAfter_eq (seq : UInt64) :
    seqAfter seq = UInt64.ofNat (min (seq.toNat + 1) (UInt64.size - 1)) := by
  have bound := seq.toNat_lt_size
  have largest : (0xFFFFFFFFFFFFFFFF : UInt64).toNat = UInt64.size - 1 := rfl
  rw [seqAfter]
  by_cases last : seq = 0xFFFFFFFFFFFFFFFF
  · subst last
    rw [if_pos rfl, largest, Nat.min_eq_right (by omega)]
    rfl
  · have less : seq.toNat ≠ UInt64.size - 1 := fun same =>
      last (UInt64.toNat_inj.mp (same.trans largest.symm))
    rw [if_neg last, Nat.min_eq_left (by omega), UInt64.ofNat_add, UInt64.ofNat_toNat]
    rfl

theorem not_opened_nil : ¬ Opened [] key a chunks := by
  rintro ⟨⟨before, after, split, -⟩, -, -⟩
  simp at split

/-- An operation on another transfer opens and closes nothing. -/
theorem opened_concat_of_ne (apart : o.key ≠ key) :
    Opened (os ++ [o]) key a chunks ↔ Opened os key a chunks := by
  have hidden : [o].filter (fun o => o.key = key) = [] :=
    List.filter_cons_of_neg (by simpa using apart)
  constructor
  · rintro ⟨⟨before, after, split, own⟩, named, unfinished⟩
    rcases split_concat split with ⟨-, rfl, -⟩ | ⟨after, rfl, rfl⟩
    · exact absurd named apart
    · rw [List.filter_append, hidden, List.append_nil] at own
      exact ⟨⟨before, after, rfl, own⟩, named, unfinished⟩
  · rintro ⟨⟨before, after, rfl, own⟩, named, unfinished⟩
    refine ⟨⟨before, after ++ [o], by simp, ?_⟩, named, unfinished⟩
    rw [List.filter_append, own, hidden, List.append_nil]

/-- An announcement opens its transfer anew, whatever there was of it. -/
theorem opened_concat_announce (named : .ofAnnouncement a' = key) :
    Opened (os ++ [.announce a']) key a chunks ↔ a = a' ∧ chunks = [] := by
  constructor
  · rintro ⟨⟨before, after, split, own⟩, -, -⟩
    rcases split_concat split with ⟨rfl, same, -⟩ | ⟨after, rfl, -⟩
    · cases same
      exact ⟨rfl, List.map_eq_nil_iff.mp own.symm⟩
    · have among : .announce a' ∈ chunks.map Operation.accept := by
        rw [← own, List.mem_filter]
        exact ⟨by simp, decide_eq_true named⟩
      simp at among
  · rintro ⟨rfl, rfl⟩
    exact ⟨⟨os, [], rfl, rfl⟩, named, nofun⟩

/-- A chunk that is not a last one keeps its transfer open, and a last one closes it. -/
theorem opened_concat_accept (named : .ofChunk c = key) :
    Opened (os ++ [.accept c]) key a chunks ↔
      c.isLast = false ∧ ∃ earlier, chunks = earlier ++ [c] ∧ Opened os key a earlier := by
  have own : [Operation.accept c].filter (fun o => o.key = key) = [.accept c] :=
    List.filter_cons_of_pos (decide_eq_true named)
  constructor
  · rintro ⟨⟨before, after, split, whole⟩, opening, unfinished⟩
    rcases split_concat split with ⟨-, same, -⟩ | ⟨after, rfl, rfl⟩
    · cases same
    · rw [List.filter_append, own] at whole
      obtain ⟨earlier, now, rfl, first, last⟩ := List.append_eq_map_iff.mp whole
      obtain ⟨c', rfl, same⟩ := List.map_eq_singleton_iff.mp last
      cases same
      refine ⟨unfinished c (by simp), earlier, rfl, ⟨before, after, rfl, first.symm⟩, opening, ?_⟩
      exact fun c' here => unfinished c' (List.mem_append_left _ here)
  · rintro ⟨notLast, earlier, rfl, ⟨before, after, rfl, whole⟩, opening, unfinished⟩
    refine ⟨⟨before, after ++ [.accept c], by simp, ?_⟩, opening, ?_⟩
    · rw [List.filter_append, whole, own, List.map_append]
      rfl
    · intro c' here
      rcases List.mem_append.mp here with before | now
      · exact unfinished c' before
      · rwa [List.mem_singleton.mp now]

end

namespace Slot

variable {slot : Slot} {c : Chunk} {a : Announcement} {chunks : List Chunk} {done : Completed}
  {fault : Base64.Fault} {expected got : UInt64}

/-- A chunk is added to those that have come, unless it is the last one. -/
theorem accept_ofChunks (a : Announcement) (chunks : List Chunk) (c : Chunk) :
    (Slot.accept (some (.ofChunks a chunks)) c).2 =
      if c.isLast then none else some (.ofChunks a (chunks ++ [c])) := by
  rw [Receipt.ofChunks, Receipt.ofChunks, carried_concat, dueAfter_concat]
  cases decoded : decodeData c.data with
  | error fault =>
    have nothing : carried? c = none := carried?_eq_none.mpr ⟨fault, decoded⟩
    cases last : c.isLast <;> simp [Slot.accept, decoded, last, nothing]
  | ok bytes =>
    have given : carried? c = some bytes := carried?_eq_some.mpr decoded
    cases last : c.isLast <;> simp [Slot.accept, decoded, last, given, seqAfter_eq]

theorem result_eq_unregistered_iff :
    (slot.accept c).1.result = .error (.unregisteredChunk (.ofChunk c) c.seq) ↔ slot = none := by
  cases slot with
  | none => simp [Slot.accept]
  | some receipt =>
    cases decoded : decodeData c.data <;> cases last : c.isLast <;>
      simp [Slot.accept, decoded, last]

theorem result_eq_invalid_iff :
    (slot.accept c).1.result = .error (.invalidChunkData (.ofChunk c) c.seq fault) ↔
      slot.isSome ∧ decodeData c.data = .error fault := by
  cases slot with
  | none => simp [Slot.accept]
  | some receipt =>
    cases decoded : decodeData c.data <;> cases last : c.isLast <;>
      simp [Slot.accept, decoded, last]

theorem result_eq_nothing_iff :
    (slot.accept c).1.result = .ok none ↔
      slot.isSome ∧ (carried? c).isSome ∧ c.isLast = false := by
  cases slot with
  | none => simp [Slot.accept]
  | some receipt =>
    cases decoded : decodeData c.data <;> cases last : c.isLast <;>
      simp [Slot.accept, carried?, Except.toOption, decoded, last]

theorem result_eq_completed_iff :
    (slot.accept c).1.result = .ok (some done) ↔
      ∃ receipt bytes, slot = some receipt ∧ carried? c = some bytes ∧ c.isLast ∧
        done = ⟨.ofChunk c, receipt.announcedSize, receipt.data ++ bytes⟩ := by
  cases slot with
  | none => simp [Slot.accept]
  | some receipt =>
    cases decoded : decodeData c.data <;> cases last : c.isLast <;>
      simp [Slot.accept, carried?, Except.toOption, decoded, last, eq_comm]

theorem outOfOrder_mem_iff :
    Event.outOfOrder expected got ∈ (slot.accept c).1.events ↔
      ∃ receipt, slot = some receipt ∧ expected = receipt.nextSeq ∧ got = c.seq ∧
        c.seq ≠ receipt.nextSeq := by
  cases slot with
  | none => simp [Slot.accept]
  | some receipt =>
    have notAppended (bytes : Bytes) :
        Event.outOfOrder expected got ∉ Slot.appended c.seq bytes := by
      rw [Slot.appended]
      split <;> simp
    have noted : Event.outOfOrder expected got ∈ Slot.disorder receipt.nextSeq c.seq ↔
        expected = receipt.nextSeq ∧ got = c.seq ∧ c.seq ≠ receipt.nextSeq := by
      by_cases due : c.seq = receipt.nextSeq <;> simp [Slot.disorder, due]
    cases decoded : decodeData c.data <;> cases last : c.isLast <;>
      simp [Slot.accept, decoded, last, noted, notAppended]

end Slot

namespace Table

/-- The table after successive operations. -/
def after (t : Table) : List Operation → Table
  | [] => t
  | o :: os => (t.operate o).2.after os

variable {t : Table} {os : List Operation} {key : Key} {receipt : Receipt}

theorem after_concat (t : Table) (os : List Operation) (o : Operation) :
    t.after (os ++ [o]) = ((t.after os).operate o).2 := by
  induction os generalizing t with
  | nil => rfl
  | cons first os ih => exact ih (t.operate first).2

/-- A table has a receipt of the transfers that are open, with what has come of each. -/
theorem get?_after_iff :
    (empty.after os).get? key = some receipt ↔
      ∃ a chunks, Opened os key a chunks ∧ receipt = .ofChunks a chunks := by
  induction os using List.reverseRecOn generalizing receipt with
  | nil =>
    have nothing : (empty.after []).get? key = none := rfl
    simp [nothing, not_opened_nil]
  | append_singleton os o ih =>
    rw [after_concat]
    by_cases same : o.key = key
    · subst same
      rw [get?_operate_self]
      cases o with
      | announce a =>
        have named : Key.ofAnnouncement a = (Operation.announce a).key := rfl
        simp only [opened_concat_announce named]
        constructor
        · intro opened
          cases opened
          exact ⟨a, [], ⟨rfl, rfl⟩, rfl⟩
        · rintro ⟨_, _, ⟨rfl, rfl⟩, rfl⟩
          rfl
      | accept c =>
        have named : Key.ofChunk c = (Operation.accept c).key := rfl
        simp only [opened_concat_accept named]
        cases slot : (empty.after os).get? (Operation.accept c).key with
        | none =>
          have closed : ∀ a chunks, ¬ Opened os (Operation.accept c).key a chunks := by
            intro a chunks opened
            have found := ih.mpr ⟨a, chunks, opened, rfl⟩
            rw [slot] at found
            cases found
          simp [Slot.operate, Slot.accept, closed]
        | some before =>
          obtain ⟨a, chunks, opened, rfl⟩ := ih.mp slot
          rw [Slot.operate, Slot.accept_ofChunks]
          constructor
          · intro kept
            split at kept
            · cases kept
            next notLast =>
              cases kept
              exact ⟨a, _, ⟨by simpa using notLast, chunks, rfl, opened⟩, rfl⟩
          · rintro ⟨a', _, ⟨notLast, earlier, rfl, opened'⟩, rfl⟩
            have one := slot.symm.trans (ih.mpr ⟨a', earlier, opened', rfl⟩)
            have next := Slot.accept_ofChunks a chunks c
            rw [Option.some.inj one, Slot.accept_ofChunks] at next
            exact next.symm.trans (if_neg (by simp [notLast]))
    · rw [get?_operate_of_ne _ (Ne.symm same), ih]
      simp only [opened_concat_of_ne same]

theorem isSome_get?_after_iff : ((empty.after os).get? key).isSome ↔ IsOpen os key := by
  rw [Option.isSome_iff_exists]
  constructor
  · rintro ⟨receipt, found⟩
    obtain ⟨a, chunks, opened, -⟩ := get?_after_iff.mp found
    exact ⟨a, chunks, opened⟩
  · rintro ⟨a, chunks, opened⟩
    exact ⟨_, get?_after_iff.mpr ⟨a, chunks, opened, rfl⟩⟩

theorem result_accept (t : Table) (c : Chunk) :
    (t.accept c).1 = (Slot.accept (t.get? (.ofChunk c)) c).1.result := by
  rw [(t.accept_cases c).1]

theorem events_accept (t : Table) (c : Chunk) :
    (t.accept c).2.2 = (Slot.accept (t.get? (.ofChunk c)) c).1.events := by
  rw [(t.accept_cases c).1]

/-- Every report is that of one of the operations. -/
theorem key_of_mem_reports {r : Report} (here : r ∈ t.reports os) : ∃ o ∈ os, r.key = o.key := by
  induction os generalizing t with
  | nil => cases here
  | cons o os ih =>
    rcases List.mem_cons.mp here with rfl | later
    · exact ⟨o, List.mem_cons_self, key_operate t o⟩
    · obtain ⟨o', there, same⟩ := ih later
      exact ⟨o', List.mem_cons_of_mem o there, same⟩

/-- The reports under a key are those that there would be without the other operations. -/
theorem reports_of_key_alone (t : Table) (os : List Operation) (key : Key) :
    (t.reports os).filter (fun r => r.key = key) = t.reports (os.filter fun o => o.key = key) := by
  have whole : (t.reports (os.filter fun o => o.key = key)).filter (fun r => r.key = key) =
      t.reports (os.filter fun o => o.key = key) := by
    apply List.filter_eq_self.mpr
    intro r here
    obtain ⟨o, there, same⟩ := key_of_mem_reports here
    rw [same]
    exact (List.mem_filter.mp there).2
  rw [reports_of_key, ← whole, reports_of_key, List.filter_filter]
  simp only [Bool.and_self]

/-- A last chunk that decodes completes an open transfer, with all that has come of it. -/
theorem completed_after_iff {c : Chunk} {done : Completed} :
    ((empty.after os).accept c).1 = .ok (some done) ↔
      c.isLast ∧ (carried? c).isSome ∧ ∃ a chunks, Opened os (.ofChunk c) a chunks ∧
        done = ⟨.ofChunk c, a.size, carried (chunks ++ [c])⟩ := by
  rw [result_accept, Slot.result_eq_completed_iff]
  constructor
  · rintro ⟨receipt, bytes, found, given, last, rfl⟩
    obtain ⟨a, chunks, opened, rfl⟩ := get?_after_iff.mp found
    refine ⟨last, Option.isSome_of_eq_some given, a, chunks, opened, ?_⟩
    rw [carried_concat, given]
    rfl
  · rintro ⟨last, decodes, a, chunks, opened, rfl⟩
    obtain ⟨bytes, given⟩ := Option.isSome_iff_exists.mp decodes
    refine ⟨_, bytes, get?_after_iff.mpr ⟨a, chunks, opened, rfl⟩, given, last, ?_⟩
    rw [carried_concat, given]
    rfl

/-- A table answers as these operations have it. -/
structure Answers (os : List Operation) (t : Table) : Prop where
  contains : ∀ key, t.contains key ↔ IsOpen os key
  /-- As many transfers are in progress as are open. -/
  inProgress : ∃ keys : List Key, keys.Nodup ∧ (∀ key, key ∈ keys ↔ IsOpen os key) ∧
    t.inProgress = keys.length
  unregistered : ∀ c, (t.accept c).1 = .error (.unregisteredChunk (.ofChunk c) c.seq) ↔
    ¬ IsOpen os (.ofChunk c)
  invalid : ∀ c fault, (t.accept c).1 = .error (.invalidChunkData (.ofChunk c) c.seq fault) ↔
    IsOpen os (.ofChunk c) ∧ decodeData c.data = .error fault
  nothing : ∀ c, (t.accept c).1 = .ok none ↔
    IsOpen os (.ofChunk c) ∧ (carried? c).isSome ∧ c.isLast = false
  completed : ∀ c done, (t.accept c).1 = .ok (some done) ↔
    c.isLast ∧ (carried? c).isSome ∧ ∃ a chunks, Opened os (.ofChunk c) a chunks ∧
      done = ⟨.ofChunk c, a.size, carried (chunks ++ [c])⟩
  disorder : ∀ c expected got, .outOfOrder expected got ∈ (t.accept c).2.2 ↔
    ∃ a chunks, Opened os (.ofChunk c) a chunks ∧ expected.toNat = dueAfter chunks ∧
      got = c.seq ∧ c.seq.toNat ≠ dueAfter chunks

/-- What becomes of a transfer depends on the operations under its key alone, and after any
operations the table answers as they have it. -/
theorem answers_by_history (os : List Operation) :
    (∀ key, (empty.reports os).filter (fun r => r.key = key) =
      empty.reports (os.filter fun o => o.key = key)) ∧
    Answers os (empty.after os) := by
  refine ⟨empty.reports_of_key_alone os, ?_⟩
  constructor
  case contains =>
    intro key
    exact isSome_get?_after_iff
  case inProgress =>
    refine ⟨_, (empty.after os).receipts.distinct, ?_, ?_⟩
    · intro key
      rw [Keyed.mem_keys_iff]
      exact isSome_get?_after_iff
    · exact (List.length_map _).symm
  case unregistered =>
    intro c
    rw [result_accept, Slot.result_eq_unregistered_iff, ← isSome_get?_after_iff]
    simp
  case invalid =>
    intro c fault
    rw [result_accept, Slot.result_eq_invalid_iff, isSome_get?_after_iff]
  case nothing =>
    intro c
    rw [result_accept, Slot.result_eq_nothing_iff, isSome_get?_after_iff]
  case completed =>
    intro c done
    exact completed_after_iff
  case disorder =>
    intro c expected got
    rw [events_accept, Slot.outOfOrder_mem_iff]
    constructor
    · rintro ⟨receipt, found, rfl, rfl, early⟩
      obtain ⟨a, chunks, opened, rfl⟩ := get?_after_iff.mp found
      refine ⟨a, chunks, opened, toNat_nextSeq a chunks, rfl, ?_⟩
      rw [← toNat_nextSeq a chunks]
      exact mt UInt64.toNat_inj.mp early
    · rintro ⟨a, chunks, opened, due, rfl, early⟩
      rw [← toNat_nextSeq a chunks] at due early
      refine ⟨_, get?_after_iff.mpr ⟨a, chunks, opened, rfl⟩, UInt64.toNat_inj.mp due, rfl, ?_⟩
      exact fun same => early (congrArg UInt64.toNat same)

end Table

end Mailroom.Transfer
