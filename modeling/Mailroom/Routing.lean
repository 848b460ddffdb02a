import Mailroom.Connection
import Mailroom.Frame.Reader
import Mailroom.Registry

/-!
# Routing

Where a frame of a registered client goes. It has to come from the client it says it comes from.
With a recipient it goes to that client alone, who has to be registered; without one it goes to
every registered client but the sender. Chats are written anew, the other frames pass as they came.

Deciding where a frame goes only looks at the registry. Handing it over is one attempt for each
connection; an attempt that fails is counted and nothing else.
-/

namespace Mailroom

inductive RouteError where
  | notRoutable (kind : Kind)
  | spoofedSender (claimed actual : String)
  | unknownRecipient (id : String)
  deriving DecidableEq

def RouteError.message : RouteError → String
  | .notRoutable kind => kind.tag ++ " frames are handled by the supervisor, not routed"
  | .spoofedSender claimed actual =>
    "frame claims sender " ++ claimed ++ " but connection is registered as " ++ actual
  | .unknownRecipient id => "unknown recipient " ++ id

namespace Registry

/-- The connections of all clients but one. -/
def others (r : Registry) (id : String) : List ConnId :=
  (r.snapshot.filter fun e => e.identity.id ≠ id).map Registered.conn

/-- The connections a frame of a client goes to. -/
def targets (r : Registry) (senderId : String) : (recipient : Option String) →
    Except RouteError (List ConnId)
  | none => .ok (r.others senderId)
  | some id =>
    match r.lookup id with
    | some conn => .ok [conn]
    | none => .error (.unknownRecipient id)

end Registry

/-- The bytes that are passed on for a frame. -/
def Inbound.passedOn (f : Inbound) : Bytes :=
  match f.envelope with
  | .chat c => Frame.encode (.chat c)
  | _ => f.raw

/-- Something to hand over, and to whom. -/
structure Dispatch where
  frame : Bytes
  targets : List ConnId
  deriving DecidableEq

namespace Registry

/-- What becomes of a frame that a registered client has sent. -/
def dispatch (r : Registry) (sender : Identity) (f : Inbound) : Except RouteError Dispatch :=
  match f.envelope with
  | .registration _ => .error (.notRoutable .registration)
  | e =>
    if e.senderId ≠ sender.id then .error (.spoofedSender e.senderId sender.id)
    else (r.targets sender.id e.recipient?).map fun targets => ⟨f.passedOn, targets⟩

/-- The announcement of a client to all others. -/
def dispatchJoin (r : Registry) (identity : Identity) : Dispatch :=
  ⟨Frame.encode (.registration identity), r.others identity.id⟩

end Registry

/-- How many connections a frame reached and how many it did not. -/
structure Delivery where
  delivered : Nat
  failed : Nat
  deriving DecidableEq

/-- The registry together with the connections, which are numbered from zero. -/
structure Exchange where
  registry : Registry
  connections : List Connection

namespace Exchange

def empty : Exchange := ⟨.empty, []⟩

def connection? (x : Exchange) (conn : ConnId) : Option Connection := x.connections[conn]?

/-- Adds a connection; its number is how many there were before. -/
def connect (x : Exchange) (c : Connection) : Exchange :=
  { x with connections := x.connections ++ [c] }

def modify (x : Exchange) (conn : ConnId) (f : Connection → Connection) : Exchange :=
  { x with connections := x.connections.modify conn f }

/-- One attempt to queue a frame on a connection. -/
def post (x : Exchange) (conn : ConnId) (frame : Bytes) : Except DeliveryError Unit × Exchange :=
  match x.connection? conn with
  | none => (.error .closed, x)
  | some c =>
    let (result, c) := c.send frame
    (result, { x with connections := x.connections.set conn c })

/-- One attempt for each of the connections. -/
def postAll (x : Exchange) (frame : Bytes) : List ConnId → Delivery × Exchange
  | [] => (⟨0, 0⟩, x)
  | conn :: conns =>
    match x.post conn frame with
    | (.ok (), x) =>
      let (d, x) := x.postAll frame conns
      (⟨d.delivered + 1, d.failed⟩, x)
    | (.error _, x) =>
      let (d, x) := x.postAll frame conns
      (⟨d.delivered, d.failed + 1⟩, x)

/-- Routes a frame of a registered client. -/
def route (x : Exchange) (sender : Identity) (f : Inbound) :
    Except RouteError Delivery × Exchange :=
  match x.registry.dispatch sender f with
  | .error e => (.error e, x)
  | .ok d =>
    let (delivery, x) := x.postAll d.frame d.targets
    (.ok delivery, x)

/-- Tells all other clients that a client has joined. -/
def announceJoin (x : Exchange) (identity : Identity) : Delivery × Exchange :=
  let d := x.registry.dispatchJoin identity
  x.postAll d.frame d.targets

def register (x : Exchange) (identity : Identity) (conn : ConnId) :
    Except AlreadyRegistered Unit × Exchange :=
  match x.registry.register identity conn with
  | .error e => (.error e, x)
  | .ok registry => (.ok (), { x with registry })

def unregister (x : Exchange) (conn : ConnId) : Option Identity × Exchange :=
  let (identity, registry) := x.registry.unregister conn
  (identity, { x with registry })

/-- Removes all clients and requests that their connections close. -/
def drain (x : Exchange) : List Registered × Exchange :=
  let drained := x.registry.snapshot
  (drained, drained.foldl (fun x e => x.modify e.conn .requestClose) { x with registry := .empty })

end Exchange

end Mailroom
