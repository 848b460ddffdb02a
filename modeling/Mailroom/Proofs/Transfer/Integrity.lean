import Mailroom.Proofs.Text.Base64
import Mailroom.Proofs.Transfer.Operations
import Mailroom.Proofs.Transfer.Sending

/-!
# No silent corruption

Chunks of a transfer can get lost, arrive twice or arrive in another order. A table appends what
arrives, and so it can complete a transfer with other bytes than those of the source; but then it
has logged a chunk that was not due. What is shown here is that a transfer that completes without
such an entry holds the bytes of its source.

The argument needs sequence numbers that tell all chunks apart, so it stops at `2 ^ 64` chunks.
-/

namespace Mailroom.Transfer

/-- The event of a chunk that is not due, or that does not decode. -/
def Event.isDisorder : Event → Bool
  | .outOfOrder _ _ => true
  | .invalidChunk _ _ => true
  | _ => false

/-- What is known of a transfer as long as nothing out of order was noted: it is closed, or what it
has is what the chunks up to the one that is due carry. -/
inductive Tracks (key : Key) (toId : Option String) (chunks : List Chunk) (source : Bytes) :
    Slot → Prop
  | closed : Tracks key toId chunks source none
  | open {size : UInt64} {past due : List Chunk} {data rest : Bytes} {n : Nat}
      (split : chunks = past ++ due) (count : past.length = n) (parts : source = data ++ rest)
      (carries : Carries key toId (UInt64.ofNat n) rest due) :
      Tracks key toId chunks source (some ⟨size, data, UInt64.ofNat n⟩)

section

variable {key : Key} {toId : Option String} {chunks : List Chunk} {source : Bytes} {slot : Slot}
  {c : Chunk}

/-- With the number that is due comes the chunk that is due. -/
theorem eq_of_seq_due (carried : Carries key toId 0 source chunks)
    (few : chunks.length < UInt64.size) (here : c ∈ chunks) {i : Nat} (inside : i < chunks.length)
    (seq : c.seq = UInt64.ofNat i) : chunks[i]? = some c := by
  obtain ⟨j, bound, found⟩ := List.getElem_of_mem here
  have at' : chunks[j]? = some c := List.getElem?_eq_some_iff.mpr ⟨bound, found⟩
  have number := carried.seq_of_getElem? at'
  rw [UInt64.zero_add, seq] at number
  have same : i = j := by
    have values := congrArg UInt64.toNat number
    rwa [UInt64.toNat_ofNat_of_lt' (Nat.lt_trans inside few),
      UInt64.toNat_ofNat_of_lt' (Nat.lt_trans bound few)] at values
  rw [same]
  exact at'

theorem seqAfter_ofNat {n : Nat} (few : n + 1 < UInt64.size) :
    seqAfter (UInt64.ofNat n) = UInt64.ofNat (n + 1) := by
  have notLast : UInt64.ofNat n ≠ 0xFFFFFFFFFFFFFFFF := by
    intro same
    have values := congrArg UInt64.toNat same
    rw [UInt64.toNat_ofNat_of_lt' (Nat.lt_of_succ_lt few)] at values
    have last : (0xFFFFFFFFFFFFFFFF : UInt64).toNat + 1 = UInt64.size := rfl
    omega
  rw [seqAfter, if_neg notLast]
  exact (UInt64.ofNat_add n 1).symm

theorem outOfOrder_mem_accept {receipt : Receipt} (early : c.seq ≠ receipt.nextSeq) :
    Event.outOfOrder receipt.nextSeq c.seq ∈ (Slot.accept (some receipt) c).1.events := by
  cases decoded : decodeData c.data <;> cases last : c.isLast <;>
    simp [Slot.accept, Slot.disorder, decoded, last, early]

/-- A chunk of the source that causes no disorder is the one that is due. If it is the last one,
nothing of the source is missing. -/
theorem tracks_accept (carried : Carries key toId 0 source chunks)
    (few : chunks.length < UInt64.size) (tracks : Tracks key toId chunks source slot)
    (here : c ∈ chunks) (clean : ∀ e ∈ (slot.accept c).1.events, e.isDisorder = false) :
    Tracks key toId chunks source (slot.accept c).2 ∧
      ∀ done, (slot.accept c).1.result = .ok (some done) → done.data = source := by
  cases tracks with
  | closed => exact ⟨.closed, fun done completes => by cases completes⟩
  | @«open» size past due data rest n split count parts carries =>
    have seq : c.seq = UInt64.ofNat n := by
      by_cases same : c.seq = UInt64.ofNat n
      · exact same
      · have noted := clean _ (outOfOrder_mem_accept same)
        cases noted
    have inside : n < chunks.length := by
      have some := carries.length_pos
      rw [split, List.length_append]
      omega
    have found := eq_of_seq_due carried few here inside seq
    rw [split, ← count, List.getElem?_append_right (Nat.le_refl _), Nat.sub_self] at found
    cases carries with
    | last number =>
      cases found
      rw [Slot.accept_last]
      constructor
      · exact .closed
      · intro done completes
        cases completes
        exact parts.symm
    | @more number piece later others given carries =>
      cases found
      have number : UInt64.ofNat n + 1 = UInt64.ofNat (n + 1) := (UInt64.ofNat_add n 1).symm
      rw [number] at carries
      rw [← List.append_assoc] at parts
      rw [List.append_cons] at split
      have following : seqAfter (UInt64.ofNat n) = UInt64.ofNat (n + 1) := seqAfter_ofNat (by omega)
      rw [Slot.accept_more]
      constructor
      · rw [following]
        exact .open split (by simp [count]) parts carries
      · intro done completes
        cases completes

theorem data_of_reports (carried : Carries key toId 0 source chunks)
    (few : chunks.length < UInt64.size) {os : List Operation}
    (drawn : ∀ o ∈ os, ∃ c ∈ chunks, o = .accept c) {before after : List Report} {r : Report}
    {done : Completed} (tracks : Tracks key toId chunks source slot)
    (split : Slot.reports slot os = before ++ r :: after) (completes : r.result = .ok (some done))
    (clean : ∀ q ∈ before ++ [r], ∀ e ∈ q.events, e.isDisorder = false) : done.data = source := by
  induction os generalizing slot before with
  | nil => simp [Slot.reports] at split
  | cons o os ih =>
    obtain ⟨c, here, rfl⟩ := drawn o List.mem_cons_self
    have later : ∀ o ∈ os, ∃ c ∈ chunks, o = .accept c :=
      fun o h => drawn o (List.mem_cons_of_mem _ h)
    rw [Slot.reports, Slot.operate] at split
    cases before with
    | nil =>
      obtain ⟨rfl, -⟩ := List.cons.inj split
      have quiet := clean (slot.accept c).1 (by simp)
      exact (tracks_accept carried few tracks here quiet).2 done completes
    | cons first before =>
      obtain ⟨rfl, others⟩ := List.cons.inj split
      have quiet := clean (slot.accept c).1 (by simp)
      have tracks' := (tracks_accept carried few tracks here quiet).1
      exact ih later tracks' others fun q h => clean q (List.mem_cons_of_mem _ h)

end

/-- Whatever chunks of a source come to a table after the announcement, however often and in
whatever order, and whatever comes under other keys: a transfer that completes without an event out
of order under its key has the bytes of the source. -/
theorem completed_data_is_source (pieces : List Bytes) (key : Key) (toId : Option String)
    (chunkSize : Nat) (size : UInt64) (t : Table) {chunks : List Chunk}
    (sent : (Sender.ofReads (pieces.map .bytes) key toId chunkSize).chunks
      (pieces.flatten.length + 1) = chunks)
    (few : chunks.length < UInt64.size) {os : List Operation}
    (drawn : ∀ o ∈ os, o.key = key → ∃ c ∈ chunks, o = .accept c)
    {before after : List Report} {r : Report} {done : Completed}
    (split : t.reports (.announce ((Sender.ofReads (pieces.map .bytes) key toId
      chunkSize).announcement size) :: os) = before ++ r :: after)
    (under : r.key = key) (completes : r.result = .ok (some done))
    (clean : ∀ q ∈ before ++ [r], q.key = key → ∀ e ∈ q.events, e.isDisorder = false) :
    done.data = pieces.flatten := by
  have carried := Sender.carries_ofReads pieces key toId chunkSize
  rw [sent] at carried
  have drawn' : ∀ o ∈ os.filter (fun o => o.key = key), ∃ c ∈ chunks, o = .accept c := by
    intro o h
    obtain ⟨here, same⟩ := List.mem_filter.mp h
    exact drawn o here (by simpa using same)
  have opened : Tracks key (toId.filter (· ≠ "")) chunks pieces.flatten (some ⟨size, [], 0⟩) :=
    .open (List.nil_append chunks).symm rfl (List.nil_append _).symm carried
  have own := t.reports_of_key (.announce ((Sender.ofReads (pieces.map .bytes) key toId
    chunkSize).announcement size) :: os) key
  have named : (Operation.announce ((Sender.ofReads (pieces.map .bytes) key toId
    chunkSize).announcement size)).key = key := rfl
  rw [split, List.filter_append, List.filter_cons_of_pos (by simpa using under),
    List.filter_cons_of_pos (by simpa using named), Slot.reports] at own
  cases first : before.filter (fun q => q.key = key) with
  | nil =>
    rw [first] at own
    obtain ⟨rfl, -⟩ := List.cons.inj own
    cases completes
  | cons q before' =>
    rw [first] at own
    obtain ⟨-, others⟩ := List.cons.inj own
    apply data_of_reports carried few drawn' opened others.symm completes
    intro q' h e logged
    rcases List.mem_append.mp h with earlier | last
    · have kept : q' ∈ before.filter (fun q => q.key = key) :=
        first ▸ List.mem_cons_of_mem q earlier
      obtain ⟨here, same⟩ := List.mem_filter.mp kept
      exact clean q' (List.mem_append_left _ here) (by simpa using same) e logged
    · obtain rfl := List.mem_singleton.mp last
      exact clean q' (List.mem_append_right _ last) under e logged

/-- Three bytes, sent in chunks of two. -/
def trio : Sender := .ofReads ([[1], [2, 3]].map .bytes) ⟨"ann", "trio"⟩ none 2

/-- The chunks of the three bytes, each right after a chunk that belongs to another sender. -/
def interleaved : List Operation :=
  (trio.chunks 4).flatMap fun c => [.accept { c with fromId := "bob" }, .accept c]

theorem completed_data_is_source_interleaved :
    (trio.chunks 4).length < UInt64.size ∧
    (∀ o ∈ interleaved, o.key = ⟨"ann", "trio"⟩ → ∃ c ∈ trio.chunks 4, o = .accept c) ∧
    ∃ before r done,
      Table.empty.reports (.announce (trio.announcement 3) :: interleaved) = before ++ r :: [] ∧
      r.key = ⟨"ann", "trio"⟩ ∧ r.result = .ok (some done) ∧
      (∀ q ∈ before ++ [r], q.key = ⟨"ann", "trio"⟩ → ∀ e ∈ q.events, e.isDisorder = false) ∧
      done.data = [1, 2, 3] := by
  have few : (trio.chunks 4).length < UInt64.size := by decide
  have drawn : ∀ o ∈ interleaved, o.key = ⟨"ann", "trio"⟩ → ∃ c ∈ trio.chunks 4, o = .accept c := by
    decide
  let reports := Table.empty.reports (.announce (trio.announcement 3) :: interleaved)
  let done : Completed := ⟨⟨"ann", "trio"⟩, 3, [1, 2, 3]⟩
  let r : Report := ⟨⟨"ann", "trio"⟩, .ok (some done), [.completed 3 3]⟩
  have split : reports = reports.dropLast ++ r :: [] := by rfl
  have completes : r.result = .ok (some done) := rfl
  have clean : ∀ q ∈ reports.dropLast ++ [r], q.key = ⟨"ann", "trio"⟩ →
      ∀ e ∈ q.events, e.isDisorder = false := by decide
  exact ⟨few, drawn, reports.dropLast, r, done, split, rfl, completes, clean,
    completed_data_is_source [[1], [2, 3]] ⟨"ann", "trio"⟩ none 2 3 .empty rfl few drawn split rfl
      completes clean⟩

end Mailroom.Transfer
