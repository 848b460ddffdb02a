import Mailroom.Connection

/-!
# The writer of a connection

One writer takes the frames out of a connection's queue and writes them to its socket, one after the
other, each in as many pieces as the socket likes. It is the only one that takes frames out, so the
bytes of two frames never mix. A writer that stops, because closing was requested or because a write
has failed, leaves the rest of its frame unwritten and drops the queue.
-/

namespace Mailroom

structure Writer where
  /-- What is still to be written of the frame that was taken last. -/
  unwritten : Bytes
  /-- Everything written to the socket. -/
  written : Bytes
  isRunning : Bool
  deriving DecidableEq

namespace Writer

def fresh : Writer := ⟨[], [], true⟩

/-- Takes the next frame, after all of the one before is written. -/
def take? (w : Writer) (c : Connection) : Option (Writer × Connection) :=
  if w.isRunning && w.unwritten.isEmpty then
    match c.receive with
    | (.frame frame, c) => some ({ w with unwritten := frame }, c)
    | _ => none
  else none

/-- Writes `n` more bytes. -/
def write? (w : Writer) (n : Nat) : Option Writer :=
  if w.isRunning && 0 < n && n ≤ w.unwritten.length then
    some { w with unwritten := w.unwritten.drop n, written := w.written ++ w.unwritten.take n }
  else none

def halt (w : Writer) (c : Connection) : Writer × Connection :=
  ({ w with isRunning := false }, { c with queue := c.queue.drop })

/-- Sees that closing was requested, and stops. -/
def stop? (w : Writer) (c : Connection) : Option (Writer × Connection) :=
  if w.isRunning && c.isClosing then some (w.halt c) else none

/-- Stops because a write fails. -/
def fail? (w : Writer) (c : Connection) : Option (Writer × Connection) :=
  if w.isRunning && !w.unwritten.isEmpty then some (w.halt c) else none

variable {w w' : Writer} {c c' : Connection} {n : Nat} {p : Writer × Connection}

theorem take?_cases (took : w.take? c = some (w', c')) :
    w.isRunning ∧ w.unwritten = [] ∧ ∃ frame q, c.queue.take = (.frame frame, q) ∧
      w' = { w with unwritten := frame } ∧ c' = { c with queue := q } := by
  unfold take? at took
  split at took
  next ready =>
    rw [Bool.and_eq_true, List.isEmpty_iff] at ready
    refine ⟨ready.1, ready.2, ?_⟩
    split at took
    next frame c'' received =>
      cases took
      obtain ⟨q, first, rfl⟩ := Connection.receive_cases received
      exact ⟨frame, q, first, rfl, rfl⟩
    next => cases took
  next => cases took

theorem write?_cases (wrote : w.write? n = some w') :
    w.isRunning ∧ 0 < n ∧ n ≤ w.unwritten.length ∧
      w' = { w with
        unwritten := w.unwritten.drop n
        written := w.written ++ w.unwritten.take n } := by
  unfold write? at wrote
  split at wrote
  next ready =>
    cases wrote
    rw [Bool.and_eq_true, Bool.and_eq_true, decide_eq_true_iff, decide_eq_true_iff] at ready
    exact ⟨ready.1.1, ready.1.2, ready.2, rfl⟩
  next => cases wrote

theorem stop?_cases (stopped : w.stop? c = some p) :
    w.isRunning ∧ c.isClosing ∧ p = w.halt c := by
  unfold stop? at stopped
  split at stopped
  next ready =>
    cases stopped
    rw [Bool.and_eq_true] at ready
    exact ⟨ready.1, ready.2, rfl⟩
  next => cases stopped

theorem fail?_cases (failed : w.fail? c = some p) :
    w.isRunning ∧ w.unwritten ≠ [] ∧ p = w.halt c := by
  unfold fail? at failed
  split at failed
  next ready =>
    cases failed
    rw [Bool.and_eq_true, Bool.not_eq_true', List.isEmpty_eq_false_iff] at ready
    exact ⟨ready.1, ready.2, rfl⟩
  next => cases failed

end Writer

end Mailroom
