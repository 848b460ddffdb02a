import Mailroom.Frame

/-!
# Reading frames from a stream

Bytes arrive in reads of any size, and a read can fail. A reader cuts what arrives into lines,
passes over blank ones and decodes the others. A line that would need more bytes than the limit is
cut there; the bytes after the cut are read as a line of their own.

A failed read loses the part of the line that was already taken in, and nothing else. The source is
a value: the reads still to come, and whether more can be added to them.
-/

namespace Mailroom

/-- What one read of a byte stream gives. -/
inductive Read where
  | bytes (b : Bytes)
  | failure (reason : String)
  deriving DecidableEq

/-- The bytes of a read; a failure counts as one. -/
def Read.size : Read → Nat
  | .bytes b => b.length
  | .failure _ => 1

/-- An envelope with the exact bytes it came as. -/
structure Inbound where
  envelope : Envelope
  raw : Bytes
  deriving DecidableEq

/-- The outcome of asking for the next frame. -/
inductive Reading where
  | frame (f : Inbound)
  | failed (e : FrameError)
  /-- The stream has ended at the end of a line. -/
  | ended
  /-- All that has arrived is used up, and more may come. -/
  | waiting
  deriving DecidableEq

structure FrameReader where
  /-- Most bytes of a frame, its line feed included. -/
  limit : Nat
  /-- The part of the current line that is taken in, last byte first. -/
  seen : Bytes
  /-- Bytes that have arrived and are not taken in. -/
  pending : Bytes
  /-- Reads to come. -/
  reads : List Read
  /-- More reads may be added to the ones to come. -/
  isOpen : Bool
  deriving DecidableEq

namespace FrameReader

/-- A reader of a stream that gives these reads and then ends. -/
def ofReads (limit : Nat) (reads : List Read) : FrameReader := ⟨limit, [], [], reads, false⟩

/-- A reader of a stream from which nothing has arrived. -/
def fresh (limit : Nat) : FrameReader := ⟨limit, [], [], [], true⟩

/-- More arrives. -/
def push (r : FrameReader) (read : Read) : FrameReader := { r with reads := r.reads ++ [read] }

/-- Nothing more will arrive. -/
def close (r : FrameReader) : FrameReader := { r with isOpen := false }

/-- How many bytes and failures are still to be taken in. -/
def backlog (r : FrameReader) : Nat :=
  r.reads.foldl (fun n read => n + read.size) r.pending.length

/-- A stretch of the stream that is acted on as a whole. -/
inductive Segment where
  | line (raw : Bytes)
  | tooLarge

/-- Takes bytes in until a segment is complete, which `cut` is given with the bytes after it, or
until they are used up, and then `wait` is given the line so far. `room` is how many more bytes the
line may have. -/
def scan {ρ : Type} (limit : Nat) (wait : (seen : Bytes) → (room : Nat) → ρ)
    (cut : Segment → (rest : Bytes) → ρ) : (seen : Bytes) → (room : Nat) → Bytes → ρ
  | seen, room, [] => wait seen room
  | seen, room, b :: s =>
    if b = Ascii.lineFeed then
      let raw : Bytes := (b :: seen).reverse
      if Bytes.isBlank raw then scan limit wait cut [] limit s else cut (.line raw) s
    else if room ≤ 1 then cut .tooLarge s
    else scan limit wait cut (b :: seen) (room - 1) s

/-- What a complete segment is read as. -/
def interpret (limit : Nat) : Segment → Reading
  | .tooLarge => .failed (.tooLarge limit)
  | .line raw =>
    match Frame.decode raw with
    | .ok envelope => .frame ⟨envelope, raw⟩
    | .error reason => .failed (.malformed reason)

/-- What the end of everything that has arrived is read as, in the middle of a line or not. -/
def atEnd (isOpen : Bool) (seen : Bytes) : Reading :=
  if isOpen then .waiting
  else if seen.isEmpty then .ended
  else .failed .truncated

/-- Goes on from the pending bytes through the reads to come. -/
def pull (limit : Nat) (isOpen : Bool) :
    List Read → (seen : Bytes) → (room : Nat) → (pending : Bytes) → Reading × FrameReader
  | [], seen, room, pending =>
    scan limit
      (fun seen _ => (atEnd isOpen seen, ⟨limit, if isOpen then seen else [], [], [], isOpen⟩))
      (fun segment rest => (interpret limit segment, ⟨limit, [], rest, [], isOpen⟩))
      seen room pending
  | read :: reads, seen, room, pending =>
    scan limit
      (fun seen room =>
        match read with
        | .bytes b => pull limit isOpen reads seen room b
        | .failure reason => (.failed (.transport reason), ⟨limit, [], [], reads, isOpen⟩))
      (fun segment rest => (interpret limit segment, ⟨limit, [], rest, read :: reads, isOpen⟩))
      seen room pending

/-- The next frame, with the reader that goes on after it. A reader that may take nothing in sees
the end of the stream at once. -/
def next (r : FrameReader) : Reading × FrameReader :=
  if r.limit = 0 then (.ended, r)
  else pull r.limit r.isOpen r.reads r.seen (r.limit - r.seen.length) r.pending

/-- What successive calls give, at most `calls` of them, up to the end of the stream. -/
def readings (r : FrameReader) : (calls : Nat) → List Reading
  | 0 => []
  | calls + 1 =>
    match r.next with
    | (.ended, _) => [.ended]
    | (.waiting, _) => [.waiting]
    | (reading, r) => reading :: r.readings calls

end FrameReader

end Mailroom
