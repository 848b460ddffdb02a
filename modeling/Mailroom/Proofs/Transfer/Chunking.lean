import Mailroom.Proofs.Transfer.Sending
import Mathlib.Algebra.Order.Floor.Div

/-!
# A source, call by call

What a sender does when it is asked for chunks again and again, and no read fails. Its source is
cut into parts of one size, of which the last can be shorter. Each part makes a chunk, after them
comes an empty one, and after that nothing is given any more. In which reads the source gives its
bytes makes no difference to what can be seen of the sender.

The numbers of chunks and of bytes are words, which go on with zero after the last one.
-/

namespace Mailroom.Transfer

/-- A part of a source that is cut into parts of a size. -/
def part (source : Bytes) (size i : Nat) : Bytes := (source.drop (i * size)).take size

/-- How many parts a source has. -/
def partCount (source : Bytes) (size : Nat) : Nat := source.length ⌈/⌉ size

/-- A chunk belongs to an announcement. -/
structure Belongs (c : Chunk) (a : Announcement) : Prop where
  fromId : c.fromId = a.fromId
  fileName : c.fileName = a.name
  toId : c.toId = a.toId

section

variable {source : Bytes} {size i : Nat}

theorem lt_partCount_iff (room : 0 < size) :
    i < partCount source size ↔ i * size < source.length := by
  rw [partCount, lt_iff_not_ge, ceilDiv_le_iff_le_mul room, Nat.not_le, Nat.mul_comm]

theorem length_part (source : Bytes) (size i : Nat) :
    (part source size i).length = min size (source.length - i * size) := by
  rw [part, List.length_take, List.length_drop]

/-- Each part but the last is full. -/
theorem length_part_of_lt (room : 0 < size) (inside : i + 1 < partCount source size) :
    (part source size i).length = size := by
  have more := (lt_partCount_iff room).mp inside
  rw [Nat.succ_mul] at more
  rw [length_part]
  omega

/-- No part is empty. -/
theorem length_part_pos (room : 0 < size) (inside : i < partCount source size) :
    0 < (part source size i).length := by
  have more := (lt_partCount_iff room).mp inside
  rw [length_part]
  omega

/-- The first parts together are the beginning of the source. -/
theorem flatMap_part (source : Bytes) (size n : Nat) :
    (List.range n).flatMap (part source size) = source.take (n * size) := by
  induction n with
  | zero => simp
  | succ n ih =>
    rw [List.range_succ, List.flatMap_append, ih, List.flatMap_singleton, part, ← List.take_add,
      Nat.succ_mul]

/-- The parts reach to the end of the source. -/
theorem length_le_partCount (room : 0 < size) :
    source.length ≤ partCount source size * size :=
  Nat.le_of_not_lt fun short => Nat.lt_irrefl _ ((lt_partCount_iff room).mpr short)

theorem take_partCount (room : 0 < size) :
    source.take (partCount source size * size) = source :=
  List.take_of_length_le (length_le_partCount room)

end

namespace Sender

/-- The sender after so many calls. -/
def after (s : Sender) : (calls : Nat) → Sender
  | 0 => s
  | calls + 1 => (s.after calls).next.2.1

/-- What a call gives. The first one is call zero. -/
def answer (s : Sender) (i : Nat) : Sending := (s.after i).next.1

/-- What is logged by a call. -/
def logged (s : Sender) (i : Nat) : List Event := (s.after i).next.2.2

/-- All that can be seen of a sender at a call and after it. -/
structure Sight where
  answer : Sending
  logged : List Event
  bytesSent : UInt64
  isFinished : Bool

def sight (s : Sender) (i : Nat) : Sight :=
  ⟨s.answer i, s.logged i, (s.after (i + 1)).bytesSent, (s.after (i + 1)).isFinished⟩

/-- What a sender does, call by call, that has this source before it and cuts it into parts of this
size. -/
structure Cuts (s : Sender) (source : Bytes) (size : Nat) : Prop where
  full : ∀ i, i + 1 < partCount source size → (part source size i).length = size
  /-- The last part can be shorter. -/
  rest : ∀ i, i + 1 = partCount source size →
    1 ≤ (part source size i).length ∧ (part source size i).length ≤ size
  whole : (List.range (partCount source size)).flatMap (part source size) = source
  data : ∀ i < partCount source size, ∃ c, s.answer i = .chunk c ∧
    (∀ total, Belongs c (s.announcement total)) ∧ c.seq = .ofNat i ∧
    decodeData c.data = .ok (part source size i) ∧ c.isLast = false ∧
    s.logged i = [.chunkSent (.ofNat i) (part source size i).length]
  last : ∃ c, s.answer (partCount source size) = .chunk c ∧
    (∀ total, Belongs c (s.announcement total)) ∧ c.seq = .ofNat (partCount source size) ∧
    c.data = "" ∧ c.isLast = true ∧
    s.logged (partCount source size) =
      [.sendComplete (.ofNat source.length) (.ofNat (partCount source size + 1))]
  ended : ∀ i, partCount source size < i →
    s.answer i = .ended ∧ s.after (i + 1) = s.after i ∧ s.logged i = []
  /-- The bytes of all parts that have been given are counted. -/
  bytesSent : ∀ i, (s.after i).bytesSent =
    .ofNat ((List.range (min i (partCount source size))).flatMap (part source size)).length
  finished : ∀ i, (s.after i).isFinished ↔ partCount source size < i

/-- How a sender stands that has given these many parts of its source. -/
structure Stands (s₀ : Sender) (source : Bytes) (i : Nat) (s : Sender) : Prop where
  key_eq : s.key = s₀.key
  toId_eq : s.toId = s₀.toId
  chunkSize_eq : s.chunkSize = s₀.chunkSize
  nextSeq_eq : s.nextSeq = .ofNat i
  bytesSent_eq : s.bytesSent = .ofNat (source.take (i * s₀.chunkSize)).length
  unfinished : s.isFinished = false
  ahead : s.Ahead (source.drop (i * s₀.chunkSize))

variable {s s₀ : Sender} {source : Bytes} {i : Nat}

theorem Stands.chunk_eq (stands : Stands s₀ source i s) (data : Bytes) (isLast : Bool) :
    s.chunk data isLast = s₀.key.chunk s₀.toId (.ofNat i) data isLast := by
  rw [chunk, stands.key_eq, stands.toId_eq, stands.nextSeq_eq]

theorem Stands.next_part (stands : Stands s₀ source i s) (room : 0 < s₀.chunkSize)
    (inside : i < partCount source s₀.chunkSize) :
    s.next.1 = .chunk (s₀.key.chunk s₀.toId (.ofNat i) (part source s₀.chunkSize i) false) ∧
      s.next.2.2 = [.chunkSent (.ofNat i) (part source s₀.chunkSize i).length] ∧
      Stands s₀ source (i + 1) s.next.2.1 := by
  have given : source.drop (i * s₀.chunkSize) ≠ [] := by
    rw [ne_eq, List.drop_eq_nil_iff, Nat.not_le]
    exact (lt_partCount_iff room).mp inside
  have chunk_eq := stands.chunk_eq
  obtain ⟨key, toId, size, seq, sent, unfinished, ahead⟩ := stands
  rw [← size] at room
  obtain ⟨pending, pieces, gives, left⟩ := next_eq_of_ahead unfinished room ahead given
  rw [chunk_eq, size, seq] at gives
  rw [size, List.drop_drop, ← Nat.succ_mul] at left
  rw [gives]
  refine ⟨rfl, rfl, key, toId, rfl, ?_, ?_, unfinished, pieces, rfl, left.symm⟩
  · rw [UInt64.ofNat_add]
    rfl
  · rw [sent, ← UInt64.ofNat_add, ← List.length_append, ← List.take_add, ← Nat.succ_mul]

theorem Stands.next_last (stands : Stands s₀ source i s)
    (through : source.length ≤ i * s₀.chunkSize) :
    s.next.1 = .chunk (s₀.key.chunk s₀.toId (.ofNat i) [] true) ∧
      s.next.2.2 = [.sendComplete (.ofNat source.length) (.ofNat (i + 1))] ∧
      s.next.2.1.isFinished ∧ s.next.2.1.bytesSent = .ofNat source.length := by
  have chunk_eq := stands.chunk_eq
  obtain ⟨-, -, -, seq, sent, unfinished, ahead⟩ := stands
  rw [List.drop_of_length_le through] at ahead
  rw [List.take_of_length_le through] at sent
  obtain ⟨pending, pieces, gives⟩ := next_eq_of_nothing_ahead unfinished ahead
  rw [chunk_eq, seq, sent] at gives
  rw [gives]
  refine ⟨rfl, ?_, rfl, rfl⟩
  rw [UInt64.ofNat_add]
  rfl

theorem next_of_finished (finished : s.isFinished) : s.next = (.ended, s, []) := by
  rw [next, if_pos finished]

/-- After the last chunk nothing happens any more. -/
theorem after_of_finished (finished : (s.after i).isFinished) (more : Nat) :
    s.after (i + more) = s.after i := by
  induction more with
  | zero => rfl
  | succ more ih =>
    rw [← Nat.add_assoc, after, ih, next_of_finished finished]

theorem Stands.of_calls (stands : Stands s source 0 s) (room : 0 < s.chunkSize)
    (inside : i ≤ partCount source s.chunkSize) : Stands s source i (s.after i) := by
  induction i with
  | zero => exact stands
  | succ i ih => exact ((ih (Nat.le_of_succ_le inside)).next_part room inside).2.2

/-- The call after those that give the parts gives the last chunk. -/
theorem Stands.last (stands : Stands s source 0 s) (room : 0 < s.chunkSize) :
    let count := partCount source s.chunkSize
    s.answer count = .chunk (s.key.chunk s.toId (.ofNat count) [] true) ∧
      s.logged count = [.sendComplete (.ofNat source.length) (.ofNat (count + 1))] ∧
      (s.after (count + 1)).isFinished ∧
      (s.after (count + 1)).bytesSent = .ofNat source.length :=
  (stands.of_calls room (Nat.le_refl _)).next_last (length_le_partCount room)

theorem Stands.through (stands : Stands s source 0 s) (room : 0 < s.chunkSize)
    (beyond : partCount source s.chunkSize < i) :
    (s.after i).isFinished ∧ (s.after i).bytesSent = .ofNat source.length := by
  obtain ⟨-, -, finished, sent⟩ := stands.last room
  obtain ⟨more, rfl⟩ := Nat.exists_eq_add_of_le beyond
  rw [after_of_finished finished more]
  exact ⟨finished, sent⟩

/-- What is seen of a sender is determined by its source and by the size of its chunks. -/
def course (key : Key) (toId : Option String) (source : Bytes) (size i : Nat) : Sight :=
  let count := partCount source size
  let data := part source size i
  if i < count then
    ⟨.chunk (key.chunk toId (.ofNat i) data false), [.chunkSent (.ofNat i) data.length],
      .ofNat (source.take ((i + 1) * size)).length, false⟩
  else if i = count then
    ⟨.chunk (key.chunk toId (.ofNat count) [] true),
      [.sendComplete (.ofNat source.length) (.ofNat (count + 1))], .ofNat source.length, true⟩
  else ⟨.ended, [], .ofNat source.length, true⟩

theorem Stands.sight_eq (stands : Stands s source 0 s) (room : 0 < s.chunkSize) (i : Nat) :
    s.sight i = course s.key s.toId source s.chunkSize i := by
  rw [sight, course]
  rcases Nat.lt_trichotomy i (partCount source s.chunkSize) with inside | rfl | beyond
  · obtain ⟨given, logs, next⟩ := (stands.of_calls room (Nat.le_of_lt inside)).next_part room inside
    rw [if_pos inside, answer, given, logged, logs, after, next.bytesSent_eq, next.unfinished]
  · obtain ⟨given, logs, finished, sent⟩ := stands.last room
    rw [if_neg (Nat.lt_irrefl _), if_pos rfl, given, logs, finished, sent]
  · obtain ⟨finished, sent⟩ := stands.through room beyond
    rw [if_neg (Nat.lt_asymm beyond), if_neg (Nat.ne_of_gt beyond), answer, logged, after,
      next_of_finished finished, finished, sent]

theorem belongs_chunk (s : Sender) (seq : UInt64) (data : Bytes) (isLast : Bool)
    (total : UInt64) : Belongs (s.key.chunk s.toId seq data isLast) (s.announcement total) :=
  ⟨rfl, rfl, rfl⟩

theorem Stands.cuts (stands : Stands s source 0 s) (room : 0 < s.chunkSize) :
    s.Cuts source s.chunkSize := by
  constructor
  case full => exact fun i inside => length_part_of_lt room inside
  case rest =>
    intro i last
    have inside : i < partCount source s.chunkSize := by omega
    exact ⟨length_part_pos room inside, List.length_take_le _ _⟩
  case whole => rw [flatMap_part, take_partCount room]
  case data =>
    intro i inside
    have given := stands.of_calls room (Nat.le_of_lt inside)
    obtain ⟨given, logs, -⟩ := given.next_part room inside
    exact ⟨_, given, s.belongs_chunk _ _ _, rfl, decodeData_encodeData _, rfl, logs⟩
  case last =>
    obtain ⟨given, logs, -, -⟩ := stands.last room
    exact ⟨_, given, s.belongs_chunk _ _ _, rfl, rfl, rfl, logs⟩
  case ended =>
    intro i beyond
    have nothing := next_of_finished (stands.through room beyond).1
    rw [answer, logged, after, nothing]
    exact ⟨rfl, rfl, rfl⟩
  case bytesSent =>
    intro i
    rw [flatMap_part]
    rcases Nat.lt_or_ge (partCount source s.chunkSize) i with beyond | inside
    · rw [Nat.min_eq_right (Nat.le_of_lt beyond), take_partCount room]
      exact (stands.through room beyond).2
    · rw [Nat.min_eq_left inside]
      exact (stands.of_calls room inside).bytesSent_eq
  case finished =>
    intro i
    constructor
    · intro finished
      apply Nat.lt_of_not_le
      intro inside
      rw [(stands.of_calls room inside).unfinished] at finished
      cases finished
    · exact fun beyond => (stands.through room beyond).1

theorem stands_ofReads (pieces : List Bytes) (key : Key) (toId : Option String)
    (chunkSize : Nat) :
    let s := ofReads (pieces.map .bytes) key toId chunkSize
    Stands s pieces.flatten 0 s := by
  refine ⟨rfl, rfl, rfl, rfl, ?_, rfl, pieces, rfl, ?_⟩
  · rw [Nat.zero_mul, List.take_zero]
    rfl
  · rw [Nat.zero_mul, List.drop_zero]
    rfl

/-- A sender of a source that never fails gives the parts of the source, each in a chunk of its own,
and then an empty chunk, under the names in its announcement. A size of zero counts as one, and an
empty recipient as none. Whatever the reads are in which the same bytes come, nothing else is seen
of it. -/
theorem source_is_cut_call_by_call (pieces : List Bytes) (key : Key) (toId : Option String)
    (chunkSize : Nat) :
    let s := ofReads (pieces.map .bytes) key toId chunkSize
    s.Cuts pieces.flatten (max chunkSize 1) ∧
      (∀ total, s.announcement total = ⟨key.fromId, toId.filter (· ≠ ""), key.fileName, total,
        .ofNat (max chunkSize 1)⟩) ∧
      ∀ pieces' : List Bytes, pieces'.flatten = pieces.flatten →
        ∀ i, (ofReads (pieces'.map .bytes) key toId chunkSize).sight i = s.sight i := by
  intro s
  have room : 0 < max chunkSize 1 := by omega
  have stands := stands_ofReads pieces key toId chunkSize
  refine ⟨stands.cuts room, fun total => rfl, fun pieces' same i => ?_⟩
  have stands' := stands_ofReads pieces' key toId chunkSize
  rw [stands'.sight_eq room, stands.sight_eq room, same]
  rfl

end Sender

end Mailroom.Transfer
