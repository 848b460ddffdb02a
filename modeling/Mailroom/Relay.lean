import Mailroom.Config
import Mailroom.Session

/-!
# The relay

All connections of a relay, with the registry that their sessions share. The relay moves in small
steps, each of which is indivisible; the steps of different connections come in any order. To
register is one step, and so is to look up where a frame goes. Handing a frame over is one step for
each connection that is to get it, in any order of them.

A step is refused when the relay is not in a state for it. What happens to bytes on the network,
that time runs out, and that closing is requested are steps too: they are the choices of the world
around the relay.

Shutting down requests that every connection close. The relay then accepts no more connections,
clears the registry and waits until all sessions are gone.
-/

namespace Mailroom

/-- How far a relay is. -/
inductive Phase where
  | accepting
  /-- No more connections are accepted, and the registry is to be cleared. -/
  | clearing
  /-- Waits for the sessions. -/
  | waiting
  | stopped
  deriving DecidableEq

/-- The session at the place of a connection's number is that connection's. -/
structure Relay where
  limits : Limits
  phase : Phase
  /-- Shutting down was requested. -/
  isShuttingDown : Bool
  exchange : Exchange
  sessions : List Session

namespace Relay

inductive Step where
  | accept (peer : Address)
  /-- Something arrives from the client. -/
  | arrive (conn : ConnId) (read : Read)
  /-- The client sends nothing more. -/
  | finish (conn : ConnId)
  | read (conn : ConnId)
  | register (conn : ConnId)
  /-- Finds out whom to tell of a client that has registered. -/
  | join (conn : ConnId)
  /-- Finds out where a frame goes. -/
  | route (conn : ConnId)
  /-- A frame in hand gets a place in the queue of a target. -/
  | enqueue (conn target : ConnId)
  /-- The queue of a target takes no more frames. -/
  | refuse (conn target : ConnId)
  /-- The time for a target runs out. This can happen although there is room: room is promised to
  the frames that have waited longest. -/
  | expire (conn target : ConnId)
  /-- A session that waits for a frame sees that closing was requested. -/
  | notice (conn : ConnId)
  /-- A session whose end has come tells its connection to close. -/
  | hangUp (conn : ConnId)
  | unregister (conn : ConnId)
  /-- The writer takes a frame out of the queue. -/
  | take (conn : ConnId)
  /-- The writer writes some bytes. -/
  | write (conn : ConnId) (n : Nat)
  | stopWriter (conn : ConnId)
  | failWriter (conn : ConnId)
  /-- A connection is told to close. -/
  | forceClose (conn : ConnId)
  | requestShutdown
  | stopAccepting
  | clear
  | stop
  deriving DecidableEq

def fresh (limits : Limits) : Relay := ⟨limits, .accepting, false, .empty, []⟩

def session? (r : Relay) (conn : ConnId) : Option Session := r.sessions[conn]?

def connection? (r : Relay) (conn : ConnId) : Option Connection := r.exchange.connection? conn

def setSession (r : Relay) (conn : ConnId) (s : Session) : Relay :=
  { r with sessions := r.sessions.set conn s }

/-- Changes a session and nothing else. -/
def updateSession (r : Relay) (conn : ConnId) (f : Session → Option Session) : Option Relay := do
  let s ← r.session? conn
  return r.setSession conn (← f s)

/-- Changes a writer together with its connection. -/
def updateWriter (r : Relay) (conn : ConnId)
    (f : Writer → Connection → Option (Writer × Connection)) : Option Relay := do
  let s ← r.session? conn
  let c ← r.connection? conn
  let (writer, c) ← f s.writer c
  return { r.setSession conn { s with writer } with exchange := r.exchange.modify conn fun _ => c }

/-- The connection of a session, and a connection that its frame in hand is still to be tried on. -/
def posting? (r : Relay) (conn target : ConnId) : Option (Session × Dispatch × Connection) := do
  let s ← r.session? conn
  let c ← r.connection? target
  match s.activity with
  | .posting d => if target ∈ d.targets then some (s, d, c) else none
  | _ => none

/-- A session is done with one of the connections that its frame goes to. -/
def setPosted (r : Relay) (conn : ConnId) (s : Session) (d : Dispatch) (target : ConnId) : Relay :=
  r.setSession conn
    { s with activity := .ofDispatch { d with targets := d.targets.erase target } }

/-- A queue of an unusable capacity cannot be made, and the connection ends before it has begun. -/
def accept (r : Relay) (peer : Address) : Relay :=
  let c := Connection.fresh peer r.limits.outboundCapacity r.limits.sendTimeoutMs
  if Outbound.isUsableCapacity r.limits.outboundCapacity then
    { r with
      exchange := r.exchange.connect { c with isClosing := r.isShuttingDown }
      sessions := r.sessions ++ [.fresh r.limits.maxFrameSize] }
  else
    { r with
      exchange := r.exchange.connect { c with queue := c.queue.drop, isClosing := r.isShuttingDown }
      sessions := r.sessions ++ [.refused r.limits.maxFrameSize] }

/-- Takes the id of a registration, if it is free. -/
def register? (r : Relay) (conn : ConnId) : Option Relay := do
  let s ← r.session? conn
  match s.activity with
  | .registering identity =>
    match r.exchange.register identity conn with
    | (.ok (), exchange) =>
      some { r.setSession conn { s with identity? := some identity, activity := .joining } with
        exchange }
    | (.error _, _) => some (r.setSession conn { s with activity := .reading })
  | _ => none

def join? (r : Relay) (conn : ConnId) : Option Relay :=
  r.updateSession conn fun s =>
    match s.activity, s.identity? with
    | .joining, some identity =>
      some { s with activity := .ofDispatch (r.exchange.registry.dispatchJoin identity) }
    | _, _ => none

/-- A frame that is not to be handed over is dropped. -/
def route? (r : Relay) (conn : ConnId) : Option Relay :=
  r.updateSession conn fun s =>
    match s.activity, s.identity? with
    | .routing f, some identity =>
      match r.exchange.registry.dispatch identity f with
      | .ok d => some { s with activity := .ofDispatch d }
      | .error _ => some { s with activity := .reading }
    | _, _ => none

/-- Tells every connection to close. -/
def requestShutdown (r : Relay) : Relay :=
  { r with
    isShuttingDown := true
    exchange := { r.exchange with
      connections := r.exchange.connections.map Connection.requestClose } }

def step (r : Relay) : Step → Option Relay
  | .accept peer => if r.phase = .accepting then some (r.accept peer) else none
  | .arrive conn read =>
    r.updateSession conn fun s =>
      if s.reader.isOpen then some { s with reader := s.reader.push read } else none
  | .finish conn =>
    r.updateSession conn fun s =>
      if s.reader.isOpen then some { s with reader := s.reader.close } else none
  | .read conn => r.updateSession conn Session.read?
  | .register conn => r.register? conn
  | .join conn => r.join? conn
  | .route conn => r.route? conn
  | .enqueue conn target => do
    let (s, d, c) ← r.posting? conn target
    match c.send d.frame with
    | (.ok (), c) =>
      some { r.setPosted conn s d target with exchange := r.exchange.modify target fun _ => c }
    | (.error _, _) => none
  | .refuse conn target => do
    let (s, d, c) ← r.posting? conn target
    if c.queue.isClosed then some (r.setPosted conn s d target) else none
  | .expire conn target => do
    let (s, d, c) ← r.posting? conn target
    if c.queue.isClosed then none else some (r.setPosted conn s d target)
  | .notice conn => do
    let c ← r.connection? conn
    r.updateSession conn fun s =>
      if s.activity = .reading && c.isClosing then some { s with activity := .closing } else none
  | .hangUp conn => do
    let r ← r.updateSession conn fun s =>
      if s.activity = .closing then some { s with activity := .leaving } else none
    some { r with exchange := r.exchange.modify conn Connection.requestClose }
  | .unregister conn => do
    let r ← r.updateSession conn fun s =>
      if s.activity = .leaving then some { s with activity := .gone } else none
    some { r with exchange := (r.exchange.unregister conn).2 }
  | .take conn => r.updateWriter conn Writer.take?
  | .write conn n => r.updateWriter conn fun w c => (w.write? n).map fun w => (w, c)
  | .stopWriter conn => r.updateWriter conn Writer.stop?
  | .failWriter conn => r.updateWriter conn Writer.fail?
  | .forceClose conn =>
    if conn < r.exchange.connections.length then
      some { r with exchange := r.exchange.modify conn Connection.requestClose }
    else none
  | .requestShutdown => some r.requestShutdown
  | .stopAccepting =>
    if r.phase = .accepting && r.isShuttingDown then some { r with phase := .clearing } else none
  | .clear =>
    if r.phase = .clearing then some { r with phase := .waiting, exchange := r.exchange.drain.2 }
    else none
  | .stop =>
    if r.phase = .waiting && r.sessions.all Session.isGone then some { r with phase := .stopped }
    else none

/-- One step after the other. -/
def run (r : Relay) : List Step → Option Relay
  | [] => some r
  | s :: steps => do (← r.step s).run steps

end Relay

end Mailroom
