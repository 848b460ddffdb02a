import Mailroom.Proofs.Registry.Entries
import Mailroom.Proofs.Routing

/-!
# Which frames are refused

Three checks are made of a frame, one after the other: of its kind, of the sender that it names and
of its recipient. Each answer of `Exchange.route` stands for one way in which they can come out
(`Registry.Fate`), so that an answer tells which check failed and that the ones before did not. A
frame that is refused has left no trace.

Beyond the checks nothing depends on the kind of a frame or on its bytes. Whether a connection takes
one is a matter of its load, and loads are changed alike by all frames.
-/

namespace Mailroom

/-- All that the answers of a connection depend on. What is in its queue is not part of it. -/
structure Connection.Load where
  receivingEnd : ReceivingEnd
  capacity : Nat
  queued : Nat
  timeoutMs : Nat

namespace Connection

def load (c : Connection) : Load :=
  ⟨c.queue.receivingEnd, c.queue.capacity, c.queue.frames.length, c.timeoutMs⟩

variable {c c' : Connection}

theorem load_send (frame frame' : Bytes) (same : c.load = c'.load) :
    (c.send frame).1 = (c'.send frame').1 ∧ (c.send frame).2.load = (c'.send frame').2.load := by
  obtain ⟨receivingEnd, capacity, queued, timeoutMs⟩ := Load.mk.inj same
  have closed : c.queue.isClosed = c'.queue.isClosed := by rw [Outbound.isClosed, receivingEnd]; rfl
  have full : c.queue.isFull = c'.queue.isFull := by rw [Outbound.isFull, capacity, queued]; rfl
  rw [send, send, closed, full, timeoutMs]
  split
  · exact ⟨rfl, same⟩
  · split
    · exact ⟨rfl, same⟩
    · simp [load, Outbound.push, receivingEnd, capacity, queued]

end Connection

namespace Envelope

variable {e : Envelope} {id : String}

theorem recipient?_eq_some : e.recipient? = some id ↔ e.toId? = some id ∧ id ≠ "" := by
  simp [recipient?, Option.filter_eq_some_iff]

theorem recipient?_eq_none : e.recipient? = none ↔ e.toId? = none ∨ e.toId? = some "" := by
  rw [recipient?]
  cases e.toId? <;> simp

end Envelope

namespace Registry

variable {G : Registry} {i : Identity} {f : Inbound} {id : String}

theorem lookup_eq_none : G.lookup id = none ↔ id ∉ G.ids := by
  simp [lookup, find?, ids]

theorem exists_lookup : (∃ conn, G.lookup id = some conn) ↔ id ∈ G.ids := by
  rw [← Option.isSome_iff_exists, ← Option.ne_none_iff_isSome, ne_eq, lookup_eq_none,
    Classical.not_not]

theorem fate_notRoutable {kind : Kind} : G.Fate i f (.error (.notRoutable kind)) ↔
    f.envelope.kind = .registration ∧ kind = .registration := by
  constructor
  · rintro ⟨registration⟩
    exact ⟨registration, rfl⟩
  · rintro ⟨registration, rfl⟩
    exact .notRoutable registration

theorem fate_spoofedSender {claimed actual : String} :
    G.Fate i f (.error (.spoofedSender claimed actual)) ↔
      f.envelope.kind ≠ .registration ∧ f.envelope.senderId ≠ i.id ∧
        claimed = f.envelope.senderId ∧ actual = i.id := by
  constructor
  · rintro ⟨⟩
    next payload other => exact ⟨payload, other, rfl, rfl⟩
  · rintro ⟨payload, other, rfl, rfl⟩
    exact .spoofed payload other

theorem fate_unknownRecipient : G.Fate i f (.error (.unknownRecipient id)) ↔
    f.envelope.kind ≠ .registration ∧ f.envelope.senderId = i.id ∧
      f.envelope.toId? = some id ∧ id ≠ "" ∧ id ∉ G.ids := by
  rw [← lookup_eq_none, ← and_assoc (a := _ = some id), ← Envelope.recipient?_eq_some]
  constructor
  · rintro ⟨⟩
    next payload honest toOne absent => exact ⟨payload, honest, toOne, absent⟩
  · rintro ⟨payload, honest, toOne, absent⟩
    exact .unknown payload honest toOne absent

theorem exists_fate_ok : (∃ d, G.Fate i f (.ok d)) ↔
    f.envelope.kind ≠ .registration ∧ f.envelope.senderId = i.id ∧
      ∀ id, f.envelope.toId? = some id → id ≠ "" → id ∈ G.ids := by
  simp only [← and_imp, ← Envelope.recipient?_eq_some, ← exists_lookup]
  constructor
  · rintro ⟨d, fate⟩
    cases fate with
    | toOne payload honest toOne found =>
      refine ⟨payload, honest, fun id recipient => ?_⟩
      cases toOne.symm.trans recipient
      exact ⟨_, found⟩
    | toAll payload honest toAll =>
      exact ⟨payload, honest, fun id recipient => by cases toAll.symm.trans recipient⟩
  · rintro ⟨payload, honest, known⟩
    cases recipient : f.envelope.recipient? with
    | none => exact ⟨_, .toAll payload honest recipient⟩
    | some id =>
      obtain ⟨conn, found⟩ := known id recipient
      exact ⟨_, .toOne payload honest recipient found⟩

end Registry

namespace Exchange

/-- The loads of the connections, in the order of their numbers. -/
def loads (x : Exchange) : List Connection.Load := x.connections.map Connection.load

/-- What routing a frame of a sender comes to. -/
structure Routes (x : Exchange) (sender : Identity) (f : Inbound) : Prop where
  notRoutable : ∀ kind, (x.route sender f).1 = .error (.notRoutable kind) ↔
    f.envelope.kind = .registration ∧ kind = .registration
  spoofedSender : ∀ claimed actual,
    (x.route sender f).1 = .error (.spoofedSender claimed actual) ↔
      f.envelope.kind ≠ .registration ∧ f.envelope.senderId ≠ sender.id ∧
        claimed = f.envelope.senderId ∧ actual = sender.id
  unknownRecipient : ∀ id, (x.route sender f).1 = .error (.unknownRecipient id) ↔
    f.envelope.kind ≠ .registration ∧ f.envelope.senderId = sender.id ∧
      f.envelope.toId? = some id ∧ id ≠ "" ∧ id ∉ x.registry.ids
  handedOver : (∃ delivery, (x.route sender f).1 = .ok delivery) ↔
    f.envelope.kind ≠ .registration ∧ f.envelope.senderId = sender.id ∧
      ∀ id, f.envelope.toId? = some id → id ≠ "" → id ∈ x.registry.ids
  atomic : ∀ e, (x.route sender f).1 = .error e → (x.route sender f).2 = x
  /-- A frame for one client is one attempt. -/
  direct : ∀ delivery id, (x.route sender f).1 = .ok delivery → f.envelope.toId? = some id →
    id ≠ "" → delivery.delivered + delivery.failed = 1
  /-- A recipient that is empty is none. -/
  broadcast : f.envelope.kind ≠ .registration → f.envelope.senderId = sender.id →
    f.envelope.toId? = none ∨ f.envelope.toId? = some "" →
    x.route sender f =
      (.ok (x.postAll f.relayed (x.registry.others sender.id)).1,
        (x.postAll f.relayed (x.registry.others sender.id)).2)
  /-- The kind of a frame, its payload and how it came make no difference to the answer, nor to
  which of the queues get something. -/
  alike : ∀ g : Inbound, f.envelope.kind ≠ .registration → g.envelope.kind ≠ .registration →
    f.envelope.senderId = g.envelope.senderId → f.envelope.recipient? = g.envelope.recipient? →
    (x.route sender f).1 = (x.route sender g).1 ∧
      (x.route sender f).2.loads = (x.route sender g).2.loads

variable {x y : Exchange} {sender : Identity} {f g : Inbound} {e : RouteError}

theorem refused_iff :
    (x.route sender f).1 = .error e ↔ x.registry.Fate sender f (.error e) := by
  constructor
  · exact fun refused => (route_eq_error.mp (Prod.ext refused rfl)).1
  · exact fun fate => congrArg Prod.fst (route_eq_error.mpr ⟨fate, rfl⟩)

theorem passed_iff : (∃ delivery, (x.route sender f).1 = .ok delivery) ↔
    ∃ d, x.registry.Fate sender f (.ok d) := by
  constructor
  · rintro ⟨delivery, passed⟩
    obtain ⟨d, fate, -⟩ := route_eq_ok.mp (Prod.ext passed rfl)
    exact ⟨d, fate⟩
  · rintro ⟨d, fate⟩
    exact ⟨_, congrArg Prod.fst (route_eq_ok.mpr ⟨d, fate, rfl⟩)⟩

theorem sum_postAll_singleton (x : Exchange) (frame : Bytes) (conn : ConnId) :
    (x.postAll frame [conn]).1.delivered + (x.postAll frame [conn]).1.failed = 1 := by
  rw [postAll]
  split <;> rfl

theorem loads_post (conn : ConnId) (frame frame' : Bytes) (same : x.loads = y.loads) :
    (x.post conn frame).1 = (y.post conn frame').1 ∧
      (x.post conn frame).2.loads = (y.post conn frame').2.loads := by
  have here : (x.connection? conn).map Connection.load = (y.connection? conn).map Connection.load := by
    rw [connection?, connection?, ← List.getElem?_map, ← List.getElem?_map]
    exact congrArg (·[conn]?) same
  rw [post, post]
  cases found : x.connection? conn with
  | none =>
    rw [found, Option.map_none, eq_comm, Option.map_eq_none_iff] at here
    rw [here]
    exact ⟨rfl, same⟩
  | some c =>
    rw [found, Option.map_some, eq_comm, Option.map_eq_some_iff] at here
    obtain ⟨c', found', load⟩ := here
    obtain ⟨answer, after⟩ := Connection.load_send frame frame' load.symm
    rw [found']
    refine ⟨answer, ?_⟩
    rw [loads, List.map_set, loads, List.map_set, after]
    change x.loads.set conn _ = y.loads.set conn _
    rw [same]

/-- Frames for the same connections come to the same. -/
theorem loads_postAll (frame frame' : Bytes) (conns : List ConnId) (same : x.loads = y.loads) :
    (x.postAll frame conns).1 = (y.postAll frame' conns).1 ∧
      (x.postAll frame conns).2.loads = (y.postAll frame' conns).2.loads := by
  induction conns generalizing x y with
  | nil => exact ⟨rfl, same⟩
  | cons conn conns ih =>
    obtain ⟨answer, after⟩ := loads_post conn frame frame' same
    obtain ⟨counts, loads⟩ := ih after
    rw [postAll, postAll]
    rcases posted : x.post conn frame with ⟨result, x'⟩
    rcases posted' : y.post conn frame' with ⟨result', y'⟩
    rw [posted, posted'] at answer counts loads
    cases answer
    rcases result with e | ⟨⟨⟩⟩ <;> exact ⟨by dsimp only at counts ⊢; rw [counts], loads⟩

theorem route_alike (payload : f.envelope.kind ≠ .registration)
    (payload' : g.envelope.kind ≠ .registration)
    (senders : f.envelope.senderId = g.envelope.senderId)
    (recipients : f.envelope.recipient? = g.envelope.recipient?) :
    (x.route sender f).1 = (x.route sender g).1 ∧
      (x.route sender f).2.loads = (x.route sender g).2.loads := by
  have dispatched := Registry.dispatch_eq (G := x.registry) (i := sender) payload
  have dispatched' := Registry.dispatch_eq (G := x.registry) (i := sender) payload'
  rw [senders, recipients] at dispatched
  by_cases other : g.envelope.senderId ≠ sender.id
  · rw [if_pos other] at dispatched dispatched'
    rw [route_of_refused dispatched, route_of_refused dispatched']
    exact ⟨rfl, rfl⟩
  · rw [if_neg other] at dispatched dispatched'
    cases targets : x.registry.targets sender.id g.envelope.recipient? with
    | error e =>
      rw [targets] at dispatched dispatched'
      rw [route_of_refused dispatched, route_of_refused dispatched']
      exact ⟨rfl, rfl⟩
    | ok conns =>
      rw [targets] at dispatched dispatched'
      rw [route_of_dispatched dispatched, route_of_dispatched dispatched']
      obtain ⟨counts, loads⟩ := loads_postAll (x := x) f.relayed g.relayed conns rfl
      exact ⟨congrArg Except.ok counts, loads⟩

/-- The answer tells which check a frame has failed, and a frame that passes all is handed over. -/
theorem routes_and_refuses_exactly (x : Exchange) (sender : Identity) (f : Inbound) :
    x.Routes sender f := by
  constructor
  case notRoutable => exact fun kind => refused_iff.trans Registry.fate_notRoutable
  case spoofedSender => exact fun claimed actual => refused_iff.trans Registry.fate_spoofedSender
  case unknownRecipient => exact fun id => refused_iff.trans Registry.fate_unknownRecipient
  case handedOver => exact passed_iff.trans Registry.exists_fate_ok
  case atomic =>
    intro e refused
    exact (route_eq_error.mp (Prod.ext refused rfl)).2
  case direct =>
    intro delivery id passed toId nonempty
    obtain ⟨d, fate, posted⟩ := route_eq_ok.mp (Prod.ext passed rfl)
    have recipient := Envelope.recipient?_eq_some.mpr ⟨toId, nonempty⟩
    cases fate with
    | @toOne _ conn =>
      have one := x.sum_postAll_singleton f.relayed conn
      rwa [posted] at one
    | toAll _ _ toAll => cases toAll.symm.trans recipient
  case broadcast =>
    intro payload honest toId
    have recipient := Envelope.recipient?_eq_none.mpr toId
    exact route_eq_ok.mpr ⟨_, .toAll payload honest recipient, rfl⟩
  case alike => exact fun g => route_alike

end Exchange

end Mailroom
