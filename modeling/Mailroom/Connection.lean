import Mailroom.Address
import Mailroom.Bytes

/-!
# Connections

The relay's side of one client's connection. Frames for the client wait in a bounded queue; whoever
holds the receiving end of the queue takes them out in order. A frame for which there is no room
waits for some, but not longer than the connection's timeout.

That closing was requested does not stop frames from being queued: a queue refuses frames only when
its receiving end is closed or dropped.
-/

namespace Mailroom

/-- The receiving end of a queue. -/
inductive ReceivingEnd where
  | receiving
  /-- Takes what is queued and lets nothing more in. -/
  | closed
  | dropped
  deriving DecidableEq

/-- Frames on their way to a client, oldest first. -/
structure Outbound where
  capacity : Nat
  frames : List Bytes
  receivingEnd : ReceivingEnd
  deriving DecidableEq

namespace Outbound

/-- The most frames that a queue can be made for. -/
def maxCapacity : Nat := UInt64.size / 8 - 1

/-- A queue can be made for this many frames. -/
def isUsableCapacity (capacity : Nat) : Bool := 1 ≤ capacity && capacity ≤ maxCapacity

def ofCapacity (capacity : Nat) : Outbound := ⟨capacity, [], .receiving⟩

def isClosed (q : Outbound) : Bool := q.receivingEnd ≠ .receiving

def isFull (q : Outbound) : Bool := q.capacity ≤ q.frames.length

def push (q : Outbound) (frame : Bytes) : Outbound := { q with frames := q.frames ++ [frame] }

/-- The result of taking a frame out without waiting for one. -/
inductive Taken where
  | frame (frame : Bytes)
  | empty
  /-- Nothing is queued, and nothing will be. -/
  | disconnected
  | noReceiver
  deriving DecidableEq

def take (q : Outbound) : Taken × Outbound :=
  match q.receivingEnd, q.frames with
  | .dropped, _ => (.noReceiver, q)
  | _, frame :: frames => (.frame frame, { q with frames })
  | .receiving, [] => (.empty, q)
  | .closed, [] => (.disconnected, q)

def close (q : Outbound) : Outbound :=
  match q.receivingEnd with
  | .receiving => { q with receivingEnd := .closed }
  | _ => q

/-- Without a receiving end the queued frames are lost. -/
def drop (q : Outbound) : Outbound := { q with frames := [], receivingEnd := .dropped }

/-- Frames come out in the order in which they were queued. -/
theorem frames_of_take {q q' : Outbound} {frame : Bytes} (h : q.take = (.frame frame, q')) :
    q.frames = frame :: q'.frames := by
  cases hend : q.receivingEnd <;> cases hframes : q.frames <;> simp [take, hend, hframes] at h
  all_goals rw [← h.2, h.1]

theorem capacity_take (q : Outbound) : q.take.2.capacity = q.capacity := by
  unfold take
  split <;> rfl

theorem isClosed_take (q : Outbound) : q.take.2.isClosed = q.isClosed := by
  unfold take
  split <;> rfl

end Outbound

/-- Why a frame was not queued. -/
inductive DeliveryError where
  | timeout (afterMs : Nat)
  | closed
  deriving DecidableEq

/-- The message about the connection called `name`. -/
def DeliveryError.message (name : String) : DeliveryError → String
  | .timeout afterMs =>
    "outbound queue for connection " ++ name ++ " still full after " ++ toString afterMs ++ " ms"
  | .closed => "connection " ++ name ++ " is closed"

structure Connection where
  peer : Address
  queue : Outbound
  timeoutMs : Nat
  /-- Closing was requested. -/
  isClosing : Bool
  deriving DecidableEq

namespace Connection

def fresh (peer : Address) (capacity timeoutMs : Nat) : Connection :=
  ⟨peer, .ofCapacity capacity, timeoutMs, false⟩

def requestClose (c : Connection) : Connection := { c with isClosing := true }

def isClosed (c : Connection) : Bool := c.isClosing || c.queue.isClosed

/-- Queues a frame. If there is no room the time runs out, because nobody takes a frame meanwhile.
-/
def send (c : Connection) (frame : Bytes) : Except DeliveryError Unit × Connection :=
  if c.queue.isClosed then (.error .closed, c)
  else if c.queue.isFull then (.error (.timeout c.timeoutMs), c)
  else (.ok (), { c with queue := c.queue.push frame })

/-- A frame is queued exactly when the queue is not closed and has room for it. -/
theorem send_eq_ok_iff {c c' : Connection} {frame : Bytes} :
    c.send frame = (.ok (), c') ↔
      c.queue.isClosed = false ∧ c.queue.isFull = false ∧
        c' = { c with queue := c.queue.push frame } := by
  unfold send
  cases c.queue.isClosed <;> cases c.queue.isFull <;> simp [eq_comm]

/-- A frame that is not queued changes nothing. -/
theorem eq_of_send_error {c c' : Connection} {frame : Bytes} {e : DeliveryError}
    (h : c.send frame = (.error e, c')) : c' = c := by
  unfold send at h
  split at h
  · simp_all
  · split at h <;> simp_all

/-- Takes a frame out of the queue. -/
def receive (c : Connection) : Outbound.Taken × Connection :=
  let (taken, queue) := c.queue.take
  (taken, { c with queue })

theorem receive_cases {c c' : Connection} {taken : Outbound.Taken}
    (received : c.receive = (taken, c')) :
    ∃ q, c.queue.take = (taken, q) ∧ c' = { c with queue := q } := by
  cases received
  exact ⟨c.queue.take.2, rfl, rfl⟩

/-- Queues a frame while one is taken out, `delayMs` after the start. A frame that waits gets the
room that this makes if it comes before the timeout. -/
def sendWhileReceiving (c : Connection) (frame : Bytes) (delayMs : Nat) :
    Except DeliveryError Unit × Outbound.Taken × Connection :=
  if !c.queue.isClosed && c.queue.isFull && delayMs < c.timeoutMs then
    let (taken, c) := c.receive
    let (result, c) := c.send frame
    (result, taken, c)
  else
    let (result, c) := c.send frame
    let (taken, c) := c.receive
    (result, taken, c)

end Connection

end Mailroom
