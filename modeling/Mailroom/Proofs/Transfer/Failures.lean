import Mailroom.Proofs.Transfer.Chunking

/-!
# Reads that fail

A sender reports a read that fails, and can be asked again. It does not keep what it had read for
the chunk that it was about to give: the next read begins that chunk anew, under the same number.
So each failure costs the bytes after the last whole chunk, and nobody can see it from the chunks,
which are numbered without a gap.

`kept` says what is left of the bytes of the reads. It is all of them exactly if every failure
comes between two chunks.
-/

namespace Mailroom.Transfer

/-- All bytes that reads give. -/
def delivered : List Read → Bytes
  | [] => []
  | .bytes b :: reads => b ++ delivered reads
  | .failure _ :: reads => delivered reads

/-- Why reads fail, one after the other. -/
def reasons : List Read → List String
  | [] => []
  | .bytes _ :: reads => reasons reads
  | .failure reason :: reads => reason :: reasons reads

/-- What gets into chunks of the bytes of reads, if these have come since the last failure. -/
def kept (size : Nat) (begun : Bytes) : List Read → Bytes
  | [] => begun
  | .bytes b :: reads => kept size (begun ++ b) reads
  | .failure _ :: reads => begun.take (begun.length / size * size) ++ kept size [] reads

section

variable {size : Nat} {begun : Bytes} {reads : List Read}

theorem length_kept_le (size : Nat) (begun : Bytes) (reads : List Read) :
    (kept size begun reads).length ≤ begun.length + (delivered reads).length := by
  induction reads generalizing begun with
  | nil => simp [kept, delivered]
  | cons read reads ih =>
    cases read with
    | bytes b =>
      have bound := @ih (begun ++ b)
      rw [List.length_append] at bound
      rw [kept, delivered, List.length_append]
      omega
    | failure reason =>
      have bound := @ih []
      rw [List.length_nil] at bound
      rw [kept, delivered, List.length_append, List.length_take]
      omega

/-- A whole chunk is kept, whatever comes after it. -/
theorem kept_append_chunk {data : Bytes} (room : 0 < size) (whole : data.length = size)
    (begun : Bytes) (reads : List Read) :
    kept size (data ++ begun) reads = data ++ kept size begun reads := by
  induction reads generalizing begun with
  | nil => rfl
  | cons read reads ih =>
    cases read with
    | bytes b => rw [kept, kept, List.append_assoc, ih]
    | failure reason =>
      have chunks : (data ++ begun).length / size * size = size + begun.length / size * size := by
        rw [List.length_append, whole, Nat.add_div_left _ room, Nat.succ_mul, Nat.add_comm]
      rw [kept, kept, chunks, ← whole, List.take_length_add_append, List.append_assoc]

/-- What comes to less than a chunk before a failure is lost. -/
theorem kept_failure_of_lt (short : begun.length < size) (reason : String) (reads : List Read) :
    kept size begun (.failure reason :: reads) = kept size [] reads := by
  rw [kept, Nat.div_eq_of_lt short, Nat.zero_mul, List.take_zero, List.nil_append]

theorem take_chunks_of_dvd (whole : size ∣ begun.length) :
    begun.take (begun.length / size * size) = begun := by
  rw [Nat.div_mul_cancel whole, List.take_length]

/-- A failure loses nothing exactly if it comes between two chunks and no later one loses
anything. -/
theorem kept_failure_eq_iff (reason : String) :
    kept size begun (.failure reason :: reads) = begun ++ delivered reads ↔
      size ∣ begun.length ∧ kept size [] reads = delivered reads := by
  rw [kept]
  constructor
  · intro same
    have lengths := congrArg List.length same
    have bound := length_kept_le size [] reads
    have chunks := Nat.div_mul_le_self begun.length size
    rw [List.length_append, List.length_append, List.length_take] at lengths
    rw [List.length_nil] at bound
    have whole : size ∣ begun.length := Dvd.intro_left (begun.length / size) (by omega)
    rw [take_chunks_of_dvd whole] at same
    exact ⟨whole, List.append_cancel_left same⟩
  · rintro ⟨whole, later⟩
    rw [take_chunks_of_dvd whole, later]

/-- Nothing is lost exactly if a whole number of chunks has come before each failure. -/
theorem kept_eq_iff (size : Nat) (begun : Bytes) (reads : List Read) :
    kept size begun reads = begun ++ delivered reads ↔
      ∀ before reason after, reads = before ++ .failure reason :: after →
        size ∣ begun.length + (delivered before).length := by
  induction reads generalizing begun with
  | nil => simp [kept, delivered]
  | cons read reads ih =>
    cases read with
    | bytes b =>
      rw [kept, delivered, ← List.append_assoc, ih]
      constructor
      · intro divides before reason after split
        cases before with
        | nil => cases split
        | cons first before =>
          cases split
          have whole := divides before reason after rfl
          rwa [List.length_append, Nat.add_assoc, ← List.length_append] at whole
      · rintro divides before reason after rfl
        have whole := divides (.bytes b :: before) reason after rfl
        rwa [delivered, List.length_append, ← Nat.add_assoc, ← List.length_append] at whole
    | failure reason =>
      have later := @ih []
      rw [List.nil_append, List.length_nil] at later
      rw [delivered, kept_failure_eq_iff, later]
      constructor
      · rintro ⟨whole, divides⟩ before reason' after split
        cases before with
        | nil => exact whole
        | cons first before =>
          cases split
          have whole' := divides before reason' after rfl
          rw [Nat.zero_add] at whole'
          exact Nat.dvd_add whole whole'
      · intro divides
        have whole : size ∣ begun.length := divides [] reason reads rfl
        refine ⟨whole, ?_⟩
        rintro before reason' after rfl
        rw [Nat.zero_add]
        exact (Nat.dvd_add_right whole).mp (divides (.failure reason :: before) reason' after rfl)

end

/-- The chunks decode to the bytes that they carry. -/
theorem Carries.decodes {key : Key} {toId : Option String} {seq : UInt64} {source : Bytes}
    {chunks : List Chunk} (carries : Carries key toId seq source chunks) :
    ∃ parts, chunks.mapM (fun c => decodeData c.data) = .ok parts ∧ parts.flatten = source := by
  induction carries with
  | last seq => exact ⟨[[]], by simp [decodeData_encodeData], rfl⟩
  | more given others ih =>
    obtain ⟨parts, decoded, rfl⟩ := ih
    refine ⟨_ :: parts, ?_, rfl⟩
    rw [List.mapM_cons, decodeData_encodeData, decoded]
    rfl

theorem Carries.belongs {s : Sender} {seq : UInt64} {source : Bytes} {chunks : List Chunk}
    {c : Chunk} (carries : Carries s.key s.toId seq source chunks) (given : c ∈ chunks)
    (total : UInt64) : Belongs c (s.announcement total) := by
  induction carries with
  | last seq =>
    obtain rfl := List.mem_singleton.mp given
    exact s.belongs_chunk _ _ _ total
  | more _ _ ih =>
    rcases List.mem_cons.mp given with rfl | later
    · exact s.belongs_chunk _ _ _ total
    · exact ih later

def Sending.chunk? : Sending → Option Chunk
  | .chunk c => some c
  | _ => none

def Sending.reason? : Sending → Option String
  | .failed reason => some reason
  | _ => none

namespace Sender

/-- What has been read when reading for a chunk comes to an end, for `begun` and these reads: a
whole chunk, or all that there is, or a part of a chunk that a failure follows. -/
inductive Filled (size : Nat) (begun : Bytes) (reads : List Read) :
    Except String Bytes × Bytes × List Read → Prop
  | whole {data pending : Bytes} {later : List Read} (length_eq : data.length = size)
      (kept_eq : kept size begun reads = data ++ kept size pending later)
      (reasons_eq : reasons reads = reasons later) :
      Filled size begun reads (.ok data, pending, later)
  | rest {data : Bytes} (kept_eq : kept size begun reads = data) (reasons_eq : reasons reads = []) :
      Filled size begun reads (.ok data, [], [])
  | failed {reason : String} {later : List Read}
      (kept_eq : kept size begun reads = kept size [] later)
      (reasons_eq : reasons reads = reason :: reasons later) :
      Filled size begun reads (.error reason, [], later)

theorem Filled.of_bytes {size : Nat} {begun b : Bytes} {reads : List Read}
    {result : Except String Bytes × Bytes × List Read} (filled : Filled size (begun ++ b) reads result) :
    Filled size begun (.bytes b :: reads) result := by
  cases filled with
  | whole length_eq kept_eq reasons_eq => exact .whole length_eq kept_eq reasons_eq
  | rest kept_eq reasons_eq => exact .rest kept_eq reasons_eq
  | failed kept_eq reasons_eq => exact .failed kept_eq reasons_eq

theorem filled_of_full {size room : Nat} (positive : 0 < size) {begun pending : Bytes}
    (fits : begun.length + room = size) (full : (pending.take room).length = room)
    (reads : List Read) :
    Filled size (begun ++ pending) reads
      (.ok (begun ++ pending.take room), pending.drop room, reads) := by
  have length_eq : (begun ++ pending.take room).length = size := by
    rw [List.length_append, full, fits]
  refine .whole length_eq ?_ rfl
  rw [← kept_append_chunk positive length_eq, List.append_assoc, List.take_append_drop]

theorem filled_fill {size room : Nat} (positive : 0 < size) (gathered : List Bytes)
    (pending : Bytes) (reads : List Read) (fits : gathered.reverse.flatten.length + room = size) :
    Filled size (gathered.reverse.flatten ++ pending) reads (fill room gathered pending reads) := by
  have gather (gathered : List Bytes) (data : Bytes) :
      (data :: gathered).reverse.flatten = gathered.reverse.flatten ++ data := by simp
  induction reads generalizing gathered pending room with
  | nil =>
    rw [fill, gather]
    by_cases full : (pending.take room).length = room
    · exact filled_of_full positive fits full []
    · rw [List.length_take] at full
      rw [List.take_of_length_le (by omega), List.drop_of_length_le (by omega)]
      exact .rest rfl rfl
  | cons read reads ih =>
    rw [fill.eq_def]
    dsimp only
    rw [gather]
    by_cases full : (pending.take room).length = room
    · rw [if_pos full]
      exact filled_of_full positive fits full (read :: reads)
    · rw [if_neg full]
      rw [List.length_take] at full
      rw [List.take_of_length_le (by omega)]
      cases read with
      | bytes b =>
        have fits' : (pending :: gathered).reverse.flatten.length + (room - pending.length) = size := by
          rw [gather, List.length_append]
          omega
        have filled := ih (pending :: gathered) b fits'
        rw [gather] at filled
        exact filled.of_bytes
      | failure reason =>
        refine .failed (kept_failure_of_lt ?_ reason reads) rfl
        rw [List.length_append]
        omega

/-- What comes of asking for a chunk before the last one was given. -/
inductive Asked (s : Sender) : Sending × Sender × List Event → Prop
  | chunk {data pending : Bytes} {reads : List Read} (given : data ≠ [])
      (kept_eq : kept s.chunkSize s.pending s.reads = data ++ kept s.chunkSize pending reads)
      (reasons_eq : reasons s.reads = reasons reads) :
      Asked s (.chunk (s.chunk data false),
        { s with
          pending, reads, nextSeq := s.nextSeq + 1
          bytesSent := s.bytesSent + UInt64.ofNat data.length },
        [.chunkSent s.nextSeq data.length])
  | last {pending : Bytes} {reads : List Read} (kept_eq : kept s.chunkSize s.pending s.reads = [])
      (reasons_eq : reasons s.reads = []) :
      Asked s (.chunk (s.chunk [] true),
        { s with pending, reads, nextSeq := s.nextSeq + 1, isFinished := true },
        [.sendComplete s.bytesSent (s.nextSeq + 1)])
  | failed {reason : String} {reads : List Read}
      (kept_eq : kept s.chunkSize s.pending s.reads = kept s.chunkSize [] reads)
      (reasons_eq : reasons s.reads = reason :: reasons reads) :
      Asked s (.failed reason, { s with pending := [], reads }, [])

variable {s s' : Sender}

theorem asked_next (unfinished : s.isFinished = false) (room : 0 < s.chunkSize) :
    s.Asked s.next := by
  have filled := filled_fill room [] s.pending s.reads (Nat.zero_add s.chunkSize)
  rw [next, if_neg (ne_true_of_eq_false unfinished)]
  generalize fill s.chunkSize [] s.pending s.reads = result at filled
  cases filled with
  | @whole data pending later length_eq kept_eq reasons_eq =>
    obtain ⟨b, data, rfl⟩ := List.exists_cons_of_length_pos (length_eq ▸ room)
    exact .chunk (List.cons_ne_nil b data) kept_eq reasons_eq
  | @rest data kept_eq reasons_eq =>
    cases data with
    | nil => exact .last kept_eq reasons_eq
    | cons b data =>
      refine .chunk (List.cons_ne_nil b data) ?_ reasons_eq
      rw [kept, List.append_nil]
      exact kept_eq
  | failed kept_eq reasons_eq => exact .failed kept_eq reasons_eq

/-- What the first calls give. -/
def answers (s : Sender) (n : Nat) : List Sending := (List.range n).map s.answer

/-- The chunks that the first calls give. -/
def produced (s : Sender) (n : Nat) : List Chunk := (s.answers n).filterMap Sending.chunk?

/-- The failures that the first calls report. -/
def failures (s : Sender) (n : Nat) : List String := (s.answers n).filterMap Sending.reason?

theorem after_succ (s : Sender) (n : Nat) : s.after (n + 1) = s.next.2.1.after n := by
  induction n with
  | zero => rfl
  | succ n ih => rw [after, ih, after]

theorem answers_succ (s : Sender) (n : Nat) :
    s.answers (n + 1) = s.next.1 :: s.next.2.1.answers n := by
  have shifted : s.answer ∘ Nat.succ = s.next.2.1.answer := by
    funext i
    rw [Function.comp_apply, answer, after_succ]
    rfl
  rw [answers, List.range_succ_eq_map, List.map_cons, List.map_map, shifted]
  rfl

/-- A sender has given all that it will ever give. -/
structure RunsOut (s : Sender) (n : Nat) : Prop where
  asking : Sending.ended ∉ s.answers n
  finished : (s.after n).isFinished
  carries : Carries s.key s.toId s.nextSeq (kept s.chunkSize s.pending s.reads) (s.produced n)
  failures_eq : s.failures n = reasons s.reads

theorem RunsOut.of_next {a : Sending} {events : List Event} {n : Nat}
    (gives : s.next = (a, s', events)) (more : a ≠ .ended) (asking : .ended ∉ s'.answers n)
    (finished : (s'.after n).isFinished)
    (carries : Carries s.key s.toId s.nextSeq (kept s.chunkSize s.pending s.reads)
      (a.chunk?.toList ++ s'.produced n))
    (failures_eq : a.reason?.toList ++ s'.failures n = reasons s.reads) : s.RunsOut (n + 1) := by
  have answers_next := s.answers_succ n
  rw [gives] at answers_next
  refine ⟨?_, ?_, ?_, ?_⟩
  · rw [answers_next, List.mem_cons, not_or]
    exact ⟨more.symm, asking⟩
  · rw [after_succ, gives]
    exact finished
  · rw [produced, answers_next]
    cases a <;> exact carries
  · rw [failures, answers_next, ← failures_eq]
    cases a <;> rfl

/-- Each call takes some bytes or a failure, so that a sender runs out in the end. -/
theorem exists_runsOut (unfinished : s.isFinished = false) (room : 0 < s.chunkSize) :
    ∃ n, s.RunsOut n := by
  induction left : (kept s.chunkSize s.pending s.reads).length + (reasons s.reads).length
    using Nat.strong_induction_on generalizing s with
  | _ m ih =>
    have asked := asked_next unfinished room
    generalize gives : s.next = result at asked
    cases asked with
    | @chunk data pending reads given kept_eq reasons_eq =>
      have fewer : (kept s.chunkSize pending reads).length + (reasons reads).length < m := by
        have some := List.length_pos_iff.mpr given
        rw [kept_eq, reasons_eq, List.length_append] at left
        omega
      obtain ⟨n, runs⟩ := ih _ fewer (s := { s with
        pending, reads, nextSeq := s.nextSeq + 1
        bytesSent := s.bytesSent + UInt64.ofNat data.length }) unfinished room rfl
      refine ⟨n + 1, .of_next gives nofun runs.asking runs.finished ?_ ?_⟩
      · rw [kept_eq]
        exact .more given runs.carries
      · rw [reasons_eq]
        exact runs.failures_eq
    | last kept_eq reasons_eq =>
      refine ⟨1, .of_next gives nofun List.not_mem_nil rfl ?_ ?_⟩
      · rw [kept_eq]
        exact .last s.nextSeq
      · rw [reasons_eq]
        rfl
    | @failed reason reads kept_eq reasons_eq =>
      have fewer : (kept s.chunkSize [] reads).length + (reasons reads).length < m := by
        rw [kept_eq, reasons_eq, List.length_cons] at left
        omega
      obtain ⟨n, runs⟩ := ih _ fewer (s := { s with pending := [], reads }) unfinished room rfl
      refine ⟨n + 1, .of_next gives nofun runs.asking runs.finished ?_ ?_⟩
      · rw [kept_eq]
        exact runs.carries
      · rw [reasons_eq]
        exact congrArg (reason :: ·) runs.failures_eq

theorem RunsOut.answer_eq_ended_iff {n i : Nat} (runs : s.RunsOut n) :
    s.answer i = .ended ↔ n ≤ i := by
  constructor
  · intro ended
    apply Nat.le_of_not_lt
    intro early
    exact runs.asking (List.mem_map.mpr ⟨i, List.mem_range.mpr early, ended⟩)
  · intro late
    obtain ⟨more, rfl⟩ := Nat.exists_eq_add_of_le late
    rw [answer, after_of_finished runs.finished, next_of_finished runs.finished]

theorem chunkSize_next (room : 0 < s.chunkSize) : s.next.2.1.chunkSize = s.chunkSize := by
  cases standing : s.isFinished with
  | true => rw [next_of_finished standing]
  | false =>
    have asked := asked_next standing room
    generalize s.next = result at asked
    cases asked <;> rfl

theorem chunkSize_after (room : 0 < s.chunkSize) (i : Nat) :
    (s.after i).chunkSize = s.chunkSize := by
  induction i with
  | zero => rfl
  | succ i ih => rw [after, chunkSize_next (ih ▸ room), ih]

/-- A call that reports a failure has changed the source and nothing else. -/
theorem after_of_failed {i : Nat} {reason : String} (room : 0 < s.chunkSize)
    (failed : s.answer i = .failed reason) :
    s.logged i = [] ∧ ∃ reads, s.after (i + 1) = { s.after i with pending := [], reads } := by
  rw [answer] at failed
  rw [logged, after]
  cases standing : (s.after i).isFinished with
  | true =>
    rw [next_of_finished standing] at failed
    cases failed
  | false =>
    have asked := asked_next standing (chunkSize_after room i ▸ room)
    generalize (s.after i).next = result at asked failed
    cases asked with
    | chunk => cases failed
    | last => cases failed
    | @failed reason reads => exact ⟨rfl, reads, rfl⟩

/-- What comes of asking a sender over and over, whatever its reads do, until there is nothing more
that it could give. -/
structure GoesOn (s : Sender) (reads : List Read) (size n : Nat) : Prop where
  /-- There is an end, and it is not left. -/
  ended : ∀ i, s.answer i = .ended ↔ n ≤ i
  /-- Each failure is told once. -/
  failures : s.failures n = reasons reads
  failed : ∀ i reason, s.answer i = .failed reason →
    s.logged i = [] ∧ ∃ reads, s.after (i + 1) = { s.after i with pending := [], reads }
  belongs : ∀ c ∈ s.produced n, ∀ total, Belongs c (s.announcement total)
  numbered : ∀ i (c : Chunk), (s.produced n)[i]? = some c → c.seq = .ofNat i
  /-- Each failure costs what has been read for a chunk that is not full. -/
  decoded : ∃ parts, (s.produced n).mapM (fun c => decodeData c.data) = .ok parts ∧
    parts.flatten = kept size [] reads
  lossless : kept size [] reads = delivered reads ↔
    ∀ before reason after, reads = before ++ .failure reason :: after →
      size ∣ (delivered before).length

/-- A sender can be asked again after a failed read, as often as reads fail. What it gives are the
numbered chunks of one source, which is all that was read exactly if each failure comes between two
chunks. -/
theorem failures_cost_unfilled_chunks (reads : List Read) (key : Key) (toId : Option String)
    (chunkSize : Nat) :
    ∃ n, (ofReads reads key toId chunkSize).GoesOn reads (max chunkSize 1) n := by
  have room : 0 < max chunkSize 1 := by omega
  obtain ⟨n, runs⟩ := exists_runsOut (s := ofReads reads key toId chunkSize) rfl room
  refine ⟨n, ?_⟩
  constructor
  case ended => exact fun i => runs.answer_eq_ended_iff
  case failures => exact runs.failures_eq
  case failed => exact fun i reason failed => after_of_failed room failed
  case belongs => exact fun c given total => runs.carries.belongs given total
  case numbered =>
    intro i c here
    rw [runs.carries.seq_of_getElem? here]
    exact UInt64.zero_add _
  case decoded => exact runs.carries.decodes
  case lossless =>
    have same := kept_eq_iff (max chunkSize 1) [] reads
    simpa only [List.nil_append, List.length_nil, Nat.zero_add] using same

/-- A failure in the middle of a chunk takes the bytes before it away. -/
theorem not_all_that_is_read_is_sent :
    ¬ ∀ (reads : List Read) (key : Key) (toId : Option String) (chunkSize n : Nat),
      let s := ofReads reads key toId chunkSize
      s.answer n = .ended → (∀ i < n, s.answer i ≠ .ended) →
        ∃ parts, (s.produced n).mapM (fun c => decodeData c.data) = .ok parts ∧
          parts.flatten = delivered reads := by
  intro always
  obtain ⟨parts, decoded, same⟩ := always [.bytes [97, 98], .failure "broken", .bytes [99]]
    ⟨"ann", "notes"⟩ (some "bob") 4 3 (by decide +kernel) (by decide +kernel)
  have sent : ((ofReads [.bytes [97, 98], .failure "broken", .bytes [99]]
      ⟨"ann", "notes"⟩ (some "bob") 4).produced 3).mapM (fun c => decodeData c.data) =
        .ok [[99], []] := by
    decide +kernel
  rw [sent] at decoded
  cases decoded
  revert same
  decide

end Sender

end Mailroom.Transfer
