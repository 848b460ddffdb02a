import Mailroom.Client
import Mailroom.Proofs.Frame.Writing
import Mailroom.Proofs.Transfer.Journey

/-!
# What a client sends for a file

A call that sends a file writes the announcement and then the chunks that the sender gives, each of
them whole before the next one is asked for. While the socket takes what is written, in whatever
pieces, these are all the envelopes of the file, and nothing else is written.
-/

namespace Mailroom

namespace Sink

variable {k : Sink}

/-- The sink takes whatever is written to it, a byte at a time or more. -/
structure IsOpen (k : Sink) : Prop where
  takes : k.perWrite ≠ some 0
  unlimited : k.room = none
  flushes : k.flushFailure = none
  unshut : k.isShut = false

theorem IsOpen.wrote (opened : k.IsOpen) (s : Bytes) : (k.wrote s).IsOpen :=
  ⟨opened.takes, opened.unlimited, opened.flushes, opened.unshut⟩

theorem IsOpen.fits_eq (opened : k.IsOpen) (n : Nat) : k.fits n = n := by
  simp [fits, opened.unshut, opened.unlimited]

/-- An open sink takes an envelope whole. -/
theorem IsOpen.send_eq (opened : k.IsOpen) (e : Envelope) :
    k.send e = (.ok (), k.wrote (Frame.encode e)) := by
  rw [send, sendRaw, writeAll_eq opened.takes, opened.fits_eq, if_pos rfl, List.take_length]
  dsimp only
  rw [flush, (opened.wrote _).flushes]
  rfl

end Sink

namespace Transfer

/-- A file as one call sends it: in the pieces in which it is read, and with the size that it had
when it was opened. -/
structure Outgoing where
  name : String
  toId : Option String
  size : UInt64
  pieces : List Bytes

namespace Outgoing

def data (f : Outgoing) : Bytes := f.pieces.flatten

def key (f : Outgoing) (fromId : String) : Key := ⟨fromId, f.name⟩

def sender (f : Outgoing) (fromId : String) : Sender :=
  .ofReads (f.pieces.map .bytes) (f.key fromId) f.toId defaultChunkSize

/-- What the call sends, as `Client.sendFile_eq` says. It asks for more chunks than there are, as
each but the last has a byte. -/
def envelopes (f : Outgoing) (fromId : String) : List Envelope :=
  (f.sender fromId).envelopes f.size (f.data.length + 2)

theorem chunkSize_pos (f : Outgoing) (fromId : String) : 0 < (f.sender fromId).chunkSize := by
  simp only [sender, Sender.ofReads, defaultChunkSize]
  omega

theorem ahead (f : Outgoing) (fromId : String) : (f.sender fromId).Ahead f.data :=
  ⟨f.pieces, rfl, rfl⟩

/-- What a receiver makes of the envelopes of a file. -/
theorem operations_eq (f : Outgoing) (fromId : String) :
    ∃ a chunks, (f.envelopes fromId).filterMap Operation.ofEnvelope? =
        .announce a :: chunks.map .accept ∧
      Key.ofAnnouncement a = f.key fromId ∧
      Carries (f.key fromId) (f.toId.filter (· ≠ "")) 0 f.data chunks :=
  ⟨_, _, Sender.filterMap_envelopes _ _ _, rfl,
    Sender.carries_chunks rfl (f.chunkSize_pos fromId) (f.ahead fromId) (by omega)⟩

theorem key_of_mem {f : Outgoing} {fromId : String} {o : Operation}
    (made : o ∈ (f.envelopes fromId).filterMap Operation.ofEnvelope?) : o.key = f.key fromId := by
  obtain ⟨a, chunks, operations, named, carries⟩ := f.operations_eq fromId
  rw [operations] at made
  obtain rfl | later := List.mem_cons.mp made
  · exact named
  · obtain ⟨c, given, rfl⟩ := List.mem_map.mp later
    exact carries.key_of_mem given

end Outgoing

end Transfer

namespace Client

open Transfer

variable {σ : Type} {c : Client σ} {s : Sender} {calls : Nat} {rest : Bytes} {d : Disk}
  {path name : String}

/-- The client when these envelopes have been written to its socket. -/
def wrote (c : Client σ) (es : List Envelope) : Client σ :=
  { c with socket := c.socket.wrote (es.map Frame.encode).flatten }

theorem wrote_wrote (c : Client σ) (es es' : List Envelope) :
    (c.wrote es).wrote es' = c.wrote (es ++ es') := by
  simp [wrote, Sink.wrote_wrote]

theorem send_eq (opened : c.socket.IsOpen) (e : Envelope) : c.send e = (.ok (), c.wrote [e]) := by
  rw [send, opened.send_eq]
  exact Prod.ext rfl (by simp [wrote])

theorem sendChunks_of_chunk (opened : c.socket.IsOpen) {chunk : Chunk}
    (given : s.next.1 = .chunk chunk) (fuel : Nat) :
    sendChunks path (fuel + 1) s c = sendChunks path fuel s.next.2.1 (c.wrote [.chunk chunk]) := by
  rw [sendChunks]
  split
  next s' events same => simp [same] at given
  next reason s' events same => simp [same] at given
  next chunk' s' events same =>
    rw [same] at given ⊢
    cases given
    rw [send_eq opened]

theorem sendChunks_of_finished (finished : s.isFinished) (fuel : Nat) :
    sendChunks path fuel s c = (.ok s.bytesSent, c) := by
  cases fuel with
  | zero => rfl
  | succ fuel => simp [sendChunks, Sender.next, finished]

/-- If no read fails, all chunks are written. -/
theorem sendChunks_eq (opened : c.socket.IsOpen) (unfinished : s.isFinished = false)
    (room : 0 < s.chunkSize) (ahead : s.Ahead rest) (enough : rest.length < calls) :
    ∃ sent, sendChunks path calls s c = (.ok sent, c.wrote ((s.chunks calls).map .chunk)) := by
  induction calls generalizing c s rest with
  | zero => omega
  | succ calls ih =>
    by_cases nothing : rest = []
    · subst nothing
      obtain ⟨given, finished⟩ := Sender.next_of_nothing_ahead unfinished ahead
      rw [sendChunks_of_chunk opened given, sendChunks_of_finished finished,
        Sender.chunks_of_next given, Sender.chunks_of_finished finished]
      exact ⟨_, rfl⟩
    · obtain ⟨given, -, -, size, -, unfinished', ahead'⟩ :=
        Sender.next_of_ahead unfinished room ahead nothing
      have fewer : (rest.drop s.chunkSize).length < calls := by
        have some := List.length_pos_iff.mpr nothing
        rw [List.length_drop]
        omega
      obtain ⟨sent, done⟩ :=
        ih (c := c.wrote [_]) (opened.wrote _) unfinished' (size ▸ room) ahead' fewer
      rw [sendChunks_of_chunk opened given, Sender.chunks_of_next given, done, wrote_wrote]
      exact ⟨sent, rfl⟩

/-- A call that sends a file writes its envelopes. -/
theorem sendFile_eq {data : Bytes} {toId : Option String} (opened : c.socket.IsOpen)
    (named : Path.fileName? path = some name) (found : d.open? path = .ok (.file data))
    (short : data.length < UInt64.size) :
    ∃ sent, c.sendFile d path toId = (.ok sent,
      c.wrote (Outgoing.envelopes ⟨name, toId, .ofNat data.length, [data]⟩ c.identity.id)) := by
  let f : Outgoing := ⟨name, toId, .ofNat data.length, [data]⟩
  have opens : openFile d path c.identity.id toId =
      .ok ((f.sender c.identity.id).announcement f.size, f.sender c.identity.id) := by
    simp only [openFile, named, found]
    rfl
  have size : ((f.sender c.identity.id).announcement f.size).size.toNat = f.data.length := by
    have whole : f.data = data := List.append_nil data
    rw [whole]
    exact UInt64.toNat_ofNat_of_lt short
  have enough : f.data.length < f.data.length + 2 := by omega
  obtain ⟨sent, done⟩ := sendChunks_eq (c := c.wrote [.announcement _]) (opened.wrote _) rfl
    (f.chunkSize_pos c.identity.id) (f.ahead c.identity.id) enough
  refine ⟨sent, ?_⟩
  rw [sendFile, opens]
  dsimp only
  rw [send_eq opened, size]
  dsimp only
  rw [done, wrote_wrote]
  rfl

end Client

end Mailroom
