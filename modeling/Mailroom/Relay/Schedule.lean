import Mailroom.Relay

/-!
# Letting a relay run

One order of a relay's steps: what is queued is written first, then each session goes on, the oldest
first, and then the relay itself. In this order time never runs out, because a writer that goes
first makes room. The relay has settled when none of these steps is left; it then waits for the
network.
-/

namespace Mailroom

namespace Relay

/-- What a writer is to do. -/
def writerStep? (conn : ConnId) (s : Session) (c : Connection) : Option Step :=
  if !s.writer.isRunning then none
  else if !s.writer.unwritten.isEmpty then some (.write conn s.writer.unwritten.length)
  else if !c.queue.frames.isEmpty then some (.take conn)
  else if c.isClosing then some (.stopWriter conn)
  else none

/-- How a frame in hand is handed over to the next target. -/
def postingStep? (r : Relay) (conn : ConnId) (d : Dispatch) : Option Step := do
  let target ← d.targets.head?
  let c ← r.connection? target
  match c.send d.frame with
  | (.ok (), _) => some (.enqueue conn target)
  | (.error .closed, _) => some (.refuse conn target)
  | (.error (.timeout _), _) => some (.expire conn target)

/-- What a session is to do. A request to close comes before a frame. -/
def sessionStep? (r : Relay) (conn : ConnId) (s : Session) (c : Connection) : Option Step :=
  match s.activity with
  | .reading => if c.isClosing then some (.notice conn) else s.read?.map fun _ => .read conn
  | .registering _ => some (.register conn)
  | .joining => some (.join conn)
  | .routing _ => some (.route conn)
  | .posting d => r.postingStep? conn d
  | .closing => some (.hangUp conn)
  | .leaving => some (.unregister conn)
  | .gone => none

/-- What the relay itself is to do. -/
def ownStep? (r : Relay) : Option Step :=
  match r.phase with
  | .accepting => if r.isShuttingDown then some .stopAccepting else none
  | .clearing => some .clear
  | .waiting => if r.sessions.all Session.isGone then some .stop else none
  | .stopped => none

/-- Every session with the number and the connection it has. -/
def stations (r : Relay) : List (ConnId × Session × Connection) :=
  (List.range r.sessions.length).zip (r.sessions.zip r.exchange.connections)

def nextStep? (r : Relay) : Option Step :=
  (r.stations.findSome? fun (conn, s, c) => writerStep? conn s c) <|>
  (r.stations.findSome? fun (conn, s, c) => r.sessionStep? conn s c) <|>
  r.ownStep?

def settleWith : (fuel : Nat) → Relay → Relay
  | 0, r => r
  | fuel + 1, r =>
    match r.nextStep?.bind r.step with
    | some r => settleWith fuel r
    | none => r

/-- More steps than are left. Every frame to come has a byte at least; it is read, routed and handed
over to each connection, taken there and written. A session ends in a few steps more. -/
def stepsLeft (r : Relay) : Nat :=
  let conns := r.sessions.length
  let frames := r.stations.foldl (fun n (_, s, c) =>
    n + s.reader.backlog + c.queue.frames.length + 2) 0
  (frames + 1) * (3 * conns + 8)

/-- Lets the relay run until there is nothing left to do. -/
def settle (r : Relay) : Relay := settleWith r.stepsLeft r

end Relay

end Mailroom
