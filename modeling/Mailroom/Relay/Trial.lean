import Mailroom.Network
import Mailroom.Relay.Schedule

/-!
# Trying a relay out

A relay with peers that connect to it, send bytes and go away. The relay settles after each of their
acts. A peer is known by a label; one that connects under a label in use takes the place of the one
that had it.
-/

namespace Mailroom

/-- The peers have the connections they were given last. -/
structure Trial where
  network : Network
  relay : Relay
  peers : List (String × ConnId)

namespace Trial

inductive Act where
  | connect (peer : String)
  | send (peer : String) (data : Bytes)
  /-- The peer sends nothing more. -/
  | finish (peer : String)
  /-- The peer closes its connection. -/
  | drop (peer : String)
  /-- The client that has an id is told to go. -/
  | disconnect (id : String)
  | shutdown
  deriving DecidableEq

inductive Reply where
  | ok
  | refused
  /-- The peer has no connection. -/
  | closed
  /-- Whether there is a client with the id. -/
  | found (isRegistered : Bool)
  deriving DecidableEq

def fresh (network : Network) (limits : Limits) : Trial := ⟨network, .fresh limits, []⟩

/-- The address that peers connect from. -/
def peerAddress : Address := .v4 127 0 0 1 0

/-- A step of the relay, if it is one that can be taken, and all that follows from it. -/
def take (t : Trial) (s : Relay.Step) : Trial :=
  { t with relay := ((t.relay.step s).getD t.relay).settle }

def isGone (t : Trial) (conn : ConnId) : Bool :=
  match t.relay.session? conn with
  | some s => s.isGone
  | none => true

/-- The connection of a peer, if it has one that has not ended. -/
def conn? (t : Trial) (peer : String) : Option ConnId :=
  (t.peers.lookup peer).filter fun conn => !t.isGone conn

/-- A step on the connection of a peer. -/
def onPeer (t : Trial) (peer : String) (step : ConnId → Relay.Step) : Reply × Trial :=
  match t.conn? peer with
  | some conn => (.ok, t.take (step conn))
  | none => (.closed, t)

def connect (t : Trial) (peer : String) : Reply × Trial :=
  match t.network.connect (t.relay.phase = .accepting) with
  | .error _ => (.refused, t)
  | .ok () =>
    let conn := t.relay.sessions.length
    let accepted := t.take (.accept peerAddress)
    let left := match t.conn? peer with
      | some old => accepted.take (.finish old)
      | none => accepted
    (.ok, { left with peers := (peer, conn) :: left.peers.filter fun p => p.1 ≠ peer })

def act (t : Trial) : Act → Reply × Trial
  | .connect peer => t.connect peer
  | .send peer data => t.onPeer peer fun conn => .arrive conn (.bytes data)
  | .finish peer => t.onPeer peer .finish
  | .drop peer => t.onPeer peer .finish
  | .disconnect id =>
    match t.relay.exchange.registry.lookup id with
    | some conn => (.found true, t.take (.forceClose conn))
    | none => (.found false, t)
  | .shutdown => (.ok, t.take .requestShutdown)

/-- The bytes that a peer's connection has carried to it. -/
def written (t : Trial) (conn : ConnId) : Bytes :=
  match t.relay.session? conn with
  | some s => s.writer.written
  | none => []

/-- Cuts bytes after each line feed. -/
def lines (s : Bytes) : List Bytes :=
  s.foldr (fun b rest =>
    if b = Ascii.lineFeed then [b] :: rest
    else match rest with
      | line :: rest => (b :: line) :: rest
      | [] => [[b]]) []

/-- The frames that have come to each peer since an earlier moment. -/
def receivedSince (t earlier : Trial) : List (String × List Bytes) :=
  t.peers.filterMap fun (peer, conn) =>
    match lines ((t.written conn).drop (earlier.written conn).length) with
    | [] => none
    | frames => some (peer, frames)

/-- The peers whose connections have ended since an earlier moment. -/
def closedSince (t earlier : Trial) : List String :=
  t.peers.filterMap fun (peer, conn) =>
    let wasOpen := earlier.relay.sessions.length ≤ conn || !earlier.isGone conn
    if wasOpen && t.isGone conn then some peer else none

/-- The registered clients, each with its peer. -/
def clients (t : Trial) : List (Identity × String) :=
  t.relay.exchange.registry.snapshot.filterMap fun e =>
    (t.peers.find? fun p => p.2 = e.conn).map fun p => (e.identity, p.1)

end Trial

end Mailroom
