import Mailroom.Frame

/-!
# Writing frames to a sink

A sink takes as many bytes at a time as it likes. A writer hands it a frame until all of it is taken
and then flushes. When a write fails, the bytes of the frame that were already taken stay in the
sink.
-/

namespace Mailroom

/-- The far end of a stream that is written to. -/
structure Sink where
  /-- Most bytes taken by one write. -/
  perWrite : Option Nat
  /-- Bytes taken in all. -/
  room : Option Nat
  /-- Why a write beyond the room fails. Without a reason it takes nothing. -/
  refusal : Option String
  /-- Why flushing fails. -/
  flushFailure : Option String
  /-- Everything taken so far. -/
  held : Bytes
  isShut : Bool
  deriving DecidableEq

namespace Sink

/-- A sink that takes everything. -/
def unbounded : Sink := ⟨none, none, none, none, [], false⟩

/-- The sink takes nothing more, for a reason. -/
def breakOff (k : Sink) (reason : String) : Sink :=
  { k with room := some k.held.length, refusal := some reason }

/-- How many of `n` bytes one write takes. -/
def taken (k : Sink) (n : Nat) : Nat :=
  let n := match k.perWrite with
    | some most => min n most
    | none => n
  match k.room with
  | some room => min n (room - k.held.length)
  | none => n

def isFull (k : Sink) : Bool :=
  match k.room with
  | some room => room ≤ k.held.length
  | none => false

/-- Why a write of some bytes gets nowhere, if it does. -/
def obstacle? (k : Sink) (n : Nat) : Option String :=
  if k.isShut then some "sink is shut down"
  else if k.isFull && k.refusal.isSome then k.refusal
  else if k.taken n = 0 then some "write zero"
  else none

/-- Writes until everything is taken. `fuel` bounds the number of writes; each takes a byte or
fails. -/
def writeAllWith : (fuel : Nat) → Sink → Bytes → Except String Unit × Sink
  | _, k, [] => (.ok (), k)
  | 0, k, _ => (.ok (), k)
  | fuel + 1, k, b :: s =>
    match k.obstacle? (s.length + 1) with
    | some reason => (.error reason, k)
    | none =>
      let n := k.taken (s.length + 1)
      writeAllWith fuel { k with held := k.held ++ (b :: s).take n } ((b :: s).drop n)

def writeAll (k : Sink) (s : Bytes) : Except String Unit × Sink := writeAllWith s.length k s

def flush (k : Sink) : Except String Unit :=
  match k.flushFailure with
  | some reason => .error reason
  | none => .ok ()

def shutDown (k : Sink) : Sink := { k with isShut := true }

/-- Sends the bytes of a frame as they are. -/
def sendRaw (k : Sink) (frame : Bytes) : Except FrameError Unit × Sink :=
  match k.writeAll frame with
  | (.error reason, k) => (.error (.transport reason), k)
  | (.ok (), k) => (k.flush.mapError .transport, k)

def send (k : Sink) (e : Envelope) : Except FrameError Unit × Sink := k.sendRaw (Frame.encode e)

end Sink

end Mailroom
