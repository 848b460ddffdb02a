import Mailroom.Proofs.Text.Base64
import Mailroom.Proofs.Transfer.Operations
import Mailroom.Transfer.Sender

/-!
# The chunks of a source

A sender whose source never fails gives chunks that carry the bytes of the source: numbered from
the first one on, each with some bytes except the last, which is empty. In which reads the source
gives its bytes makes no difference to that. An open transfer takes in the bytes of such a chunk.
-/

namespace Mailroom.Transfer

/-- A chunk as a sender makes it. -/
abbrev Key.chunk (key : Key) (toId : Option String) (seq : UInt64) (data : Bytes) (isLast : Bool) :
    Chunk :=
  ⟨key.fromId, toId, key.fileName, seq, encodeData data, isLast⟩

/-- The chunks of a transfer that carry these bytes, if the first of them has number `seq`. -/
inductive Carries (key : Key) (toId : Option String) :
    (seq : UInt64) → (source : Bytes) → List Chunk → Prop
  | last (seq : UInt64) :
      Carries key toId seq [] [key.chunk toId seq [] true]
  | more {seq : UInt64} {data rest : Bytes} {chunks : List Chunk} (given : data ≠ [])
      (others : Carries key toId (seq + 1) rest chunks) :
      Carries key toId seq (data ++ rest) (key.chunk toId seq data false :: chunks)

namespace Slot

variable (receipt : Receipt) (key : Key) (toId : Option String) (seq : UInt64) (data : Bytes)

theorem accept_more :
    Slot.accept (some receipt) (key.chunk toId seq data false) =
      (⟨key, .ok none, disorder receipt.nextSeq seq ++ appended seq data⟩,
        some ⟨receipt.announcedSize, receipt.data ++ data, seqAfter seq⟩) := by
  simp only [accept, decodeData_encodeData]
  rfl

theorem accept_last :
    Slot.accept (some receipt) (key.chunk toId seq data true) =
      (⟨key, .ok (some ⟨key, receipt.announcedSize, receipt.data ++ data⟩),
        disorder receipt.nextSeq seq ++ appended seq data ++
          [.completed (receipt.data ++ data).length receipt.announcedSize]⟩, none) := by
  simp only [accept, decodeData_encodeData]
  rfl

end Slot

namespace Carries

variable {key : Key} {toId : Option String} {seq : UInt64} {source : Bytes} {chunks : List Chunk}
  {c : Chunk}

theorem length_le (carries : Carries key toId seq source chunks) :
    chunks.length ≤ source.length + 1 := by
  induction carries with
  | last seq => simp
  | more given others ih =>
    have some := List.length_pos_iff.mpr given
    rw [List.length_append, List.length_cons]
    omega

theorem length_pos (carries : Carries key toId seq source chunks) : 0 < chunks.length := by
  cases carries <;> simp

theorem key_of_mem (carries : Carries key toId seq source chunks) (here : c ∈ chunks) :
    Key.ofChunk c = key := by
  induction carries with
  | last seq =>
    obtain rfl := List.mem_singleton.mp here
    rfl
  | more given others ih =>
    rcases List.mem_cons.mp here with rfl | later
    · rfl
    · exact ih later

theorem seq_of_getElem? {i : Nat} (carries : Carries key toId seq source chunks)
    (here : chunks[i]? = some c) : c.seq = seq + UInt64.ofNat i := by
  induction carries generalizing i with
  | last seq =>
    cases i with
    | zero =>
      cases here
      simp
    | succ i => simp at here
  | more given others ih =>
    cases i with
    | zero =>
      cases here
      simp
    | succ i =>
      rw [ih (by simpa using here), UInt64.ofNat_add, UInt64.add_assoc, UInt64.add_comm 1]
      rfl

end Carries

namespace Sender

/-- The chunks that successive calls give, up to the last one or to a read that fails. -/
def chunks (s : Sender) : (calls : Nat) → List Chunk
  | 0 => []
  | calls + 1 =>
    match s.next with
    | (.chunk c, s, _) => c :: s.chunks calls
    | _ => []

/-- These bytes are still to be sent, and no read will fail. -/
def Ahead (s : Sender) (rest : Bytes) : Prop :=
  ∃ pieces : List Bytes, s.reads = pieces.map .bytes ∧ rest = s.pending ++ pieces.flatten

theorem fill_pieces (room : Nat) (gathered : List Bytes) (pending : Bytes) (pieces : List Bytes) :
    ∃ (pending' : Bytes) (pieces' : List Bytes),
      fill room gathered pending (pieces.map .bytes) =
        (.ok (gathered.reverse.flatten ++ (pending ++ pieces.flatten).take room), pending',
          pieces'.map .bytes) ∧
      pending' ++ pieces'.flatten = (pending ++ pieces.flatten).drop room := by
  induction pieces generalizing room gathered pending with
  | nil =>
    refine ⟨pending.drop room, [], ?_, ?_⟩
    · rw [List.map_nil, fill]
      simp
    · simp
  | cons piece pieces ih =>
    rw [List.map_cons, fill]
    by_cases full : (pending.take room).length = room
    · rw [List.length_take] at full
      have fits : room ≤ pending.length := by omega
      refine ⟨pending.drop room, piece :: pieces, ?_, ?_⟩
      · simp [fits, List.take_append_of_le_length fits]
      · exact (List.drop_append_of_le_length fits).symm
    · have whole : pending.take room = pending := by
        rw [List.length_take] at full
        exact List.take_of_length_le (by omega)
      have short : pending.length ≤ room := by
        rw [← whole, List.length_take]
        omega
      obtain ⟨pending', pieces', filled, left⟩ :=
        ih (room - pending.length) (pending :: gathered) piece
      have taken (later : Bytes) :
          (pending ++ later).take room = pending ++ later.take (room - pending.length) := by
        rw [List.take_append, List.take_of_length_le short]
      have dropped (later : Bytes) :
          (pending ++ later).drop room = later.drop (room - pending.length) := by
        rw [List.drop_append, List.drop_of_length_le short, List.nil_append]
      refine ⟨pending', pieces', ?_, ?_⟩
      · rw [if_neg full, whole, filled, List.flatten_cons, taken]
        simp
      · rw [left, List.flatten_cons, dropped]

/-- At the end of the source comes the last chunk. -/
theorem next_eq_of_nothing_ahead {s : Sender} (unfinished : s.isFinished = false)
    (ahead : s.Ahead []) :
    ∃ (pending : Bytes) (pieces : List Bytes),
      s.next = (.chunk (s.chunk [] true),
        { s with
          pending, reads := pieces.map .bytes, nextSeq := s.nextSeq + 1, isFinished := true },
        [.sendComplete s.bytesSent (s.nextSeq + 1)]) := by
  obtain ⟨pieces, reads, nothing⟩ := ahead
  obtain ⟨pending, pieces', filled, -⟩ := fill_pieces s.chunkSize [] s.pending pieces
  rw [← nothing, ← reads, List.take_nil] at filled
  refine ⟨pending, pieces', ?_⟩
  simp [next, unfinished, filled]

theorem next_of_nothing_ahead {s : Sender} (unfinished : s.isFinished = false)
    (ahead : s.Ahead []) :
    s.next.1 = .chunk (s.chunk [] true) ∧ s.next.2.1.isFinished := by
  obtain ⟨pending, pieces, gives⟩ := next_eq_of_nothing_ahead unfinished ahead
  rw [gives]
  exact ⟨rfl, rfl⟩

/-- How a sender stands after a chunk that is not the last. -/
structure Advanced (s s' : Sender) (rest : Bytes) : Prop where
  key_eq : s'.key = s.key
  toId_eq : s'.toId = s.toId
  chunkSize_eq : s'.chunkSize = s.chunkSize
  nextSeq_eq : s'.nextSeq = s.nextSeq + 1
  unfinished : s'.isFinished = false
  ahead : s'.Ahead rest

theorem take_ne_nil {room : Nat} {rest : Bytes} (positive : 0 < room) (given : rest ≠ []) :
    rest.take room ≠ [] := by
  intro nothing
  rcases List.take_eq_nil_iff.mp nothing with none | none
  · omega
  · exact given none

/-- Before the end of the source comes a chunk of what is ahead, as large as chunks are. -/
theorem next_eq_of_ahead {s : Sender} {rest : Bytes} (unfinished : s.isFinished = false)
    (room : 0 < s.chunkSize) (ahead : s.Ahead rest) (given : rest ≠ []) :
    ∃ (pending : Bytes) (pieces : List Bytes),
      s.next = (.chunk (s.chunk (rest.take s.chunkSize) false),
        { s with
          pending, reads := pieces.map .bytes, nextSeq := s.nextSeq + 1
          bytesSent := s.bytesSent + UInt64.ofNat (rest.take s.chunkSize).length },
        [.chunkSent s.nextSeq (rest.take s.chunkSize).length]) ∧
      pending ++ pieces.flatten = rest.drop s.chunkSize := by
  obtain ⟨pieces, reads, rfl⟩ := ahead
  obtain ⟨pending, pieces', filled, left⟩ := fill_pieces s.chunkSize [] s.pending pieces
  obtain ⟨b, data, shown⟩ := List.exists_cons_of_ne_nil (take_ne_nil room given)
  rw [← reads, List.reverse_nil, List.flatten_nil, List.nil_append, shown] at filled
  refine ⟨pending, pieces', ?_, left⟩
  rw [shown]
  simp [next, unfinished, filled]

theorem next_of_ahead {s : Sender} {rest : Bytes} (unfinished : s.isFinished = false)
    (room : 0 < s.chunkSize) (ahead : s.Ahead rest) (given : rest ≠ []) :
    s.next.1 = .chunk (s.chunk (rest.take s.chunkSize) false) ∧
      Advanced s s.next.2.1 (rest.drop s.chunkSize) := by
  obtain ⟨pending, pieces, gives, left⟩ := next_eq_of_ahead unfinished room ahead given
  rw [gives]
  exact ⟨rfl, rfl, rfl, rfl, rfl, unfinished, pieces, rfl, left.symm⟩

theorem chunks_of_next {s : Sender} {c : Chunk} (given : s.next.1 = .chunk c) (calls : Nat) :
    s.chunks (calls + 1) = c :: s.next.2.1.chunks calls := by
  rw [chunks]
  split
  next c' s' events same =>
    rw [same] at given ⊢
    cases given
    rfl
  next other => exact (other c s.next.2.1 s.next.2.2 (Prod.ext given rfl)).elim

theorem chunks_of_finished {s : Sender} (finished : s.isFinished) (calls : Nat) :
    s.chunks calls = [] := by
  cases calls with
  | zero => rfl
  | succ calls => simp [chunks, next, finished]

/-- What is ahead of a sender is carried by the chunks it will give. -/
theorem carries_chunks {s : Sender} {rest : Bytes} {calls : Nat}
    (unfinished : s.isFinished = false) (room : 0 < s.chunkSize) (ahead : s.Ahead rest)
    (enough : rest.length < calls) : Carries s.key s.toId s.nextSeq rest (s.chunks calls) := by
  induction calls generalizing s rest with
  | zero => omega
  | succ calls ih =>
    by_cases nothing : rest = []
    · subst nothing
      obtain ⟨given, finished⟩ := next_of_nothing_ahead unfinished ahead
      rw [chunks_of_next given, chunks_of_finished finished]
      exact .last s.nextSeq
    · obtain ⟨given, key, toId, size, seq, unfinished', ahead'⟩ :=
        next_of_ahead unfinished room ahead nothing
      have fewer : (rest.drop s.chunkSize).length < calls := by
        have some := List.length_pos_iff.mpr nothing
        rw [List.length_drop]
        omega
      have others := ih unfinished' (size ▸ room) ahead' fewer
      rw [key, toId, seq] at others
      have parts := Carries.more (take_ne_nil room nothing) others
      rw [List.take_append_drop] at parts
      rw [chunks_of_next given]
      exact parts

/-- All the chunks of a source. Each but the last has a byte at least. -/
theorem carries_ofReads (pieces : List Bytes) (key : Key) (toId : Option String)
    (chunkSize : Nat) :
    Carries key (toId.filter (· ≠ "")) 0 pieces.flatten
      ((ofReads (pieces.map .bytes) key toId chunkSize).chunks (pieces.flatten.length + 1)) := by
  have room : 0 < (ofReads (pieces.map .bytes) key toId chunkSize).chunkSize := by
    simp only [ofReads]
    omega
  exact carries_chunks rfl room ⟨pieces, rfl, rfl⟩ (Nat.lt_succ_self _)

end Sender

end Mailroom.Transfer
