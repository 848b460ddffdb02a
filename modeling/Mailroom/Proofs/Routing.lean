import Mailroom.Routing

/-!
# Where a frame goes

Deciding where a frame of a registered client goes, told apart from who decides: the connections
that a frame is to reach depend on the frame and the registry alone, and so do the bytes that these
connections get. To dispatch a frame of a client is to check its sender and to find out both.
`Registry.Fate` has all that can become of the frame, and why.
-/

namespace Mailroom

/-- The bytes that the others get of a frame. A registration is announced as it is encoded. -/
def Inbound.relayed (f : Inbound) : Bytes :=
  match f.envelope with
  | .registration identity => Frame.encode (.registration identity)
  | _ => f.passedOn

namespace Registry

/-- The connections that a frame is to reach. -/
def destinations (G : Registry) (e : Envelope) : List ConnId :=
  match e.recipient? with
  | none => G.others e.senderId
  | some id => (G.lookup id).toList

variable {G : Registry} {i : Identity} {f : Inbound} {d : Dispatch} {id : String}
  {result : Except RouteError Dispatch}

theorem targets_eq (G : Registry) (e : Envelope) :
    G.targets e.senderId e.recipient? =
      match e.recipient? with
      | none => .ok (G.destinations e)
      | some id => if G.lookup id = none then .error (.unknownRecipient id)
        else .ok (G.destinations e) := by
  unfold destinations
  cases e.recipient? with
  | none => rfl
  | some id => cases found : G.lookup id <;> simp [targets, found]

/-- A frame that is no registration is dispatched unless it names another sender or a recipient who
is not there. -/
theorem dispatch_eq (payload : f.envelope.kind ≠ .registration) :
    G.dispatch i f =
      if f.envelope.senderId ≠ i.id then .error (.spoofedSender f.envelope.senderId i.id)
      else (G.targets i.id f.envelope.recipient?).map fun targets => ⟨f.relayed, targets⟩ := by
  obtain ⟨e, raw⟩ := f
  cases e with
  | registration i => exact absurd rfl payload
  | _ => rfl

theorem of_dispatch_eq_ok (dispatched : G.dispatch i f = .ok d) :
    f.envelope.senderId = i.id ∧ d = ⟨f.relayed, G.destinations f.envelope⟩ := by
  have payload : f.envelope.kind ≠ .registration := by
    intro registration
    obtain ⟨e, raw⟩ := f
    cases e <;> cases registration
    cases dispatched
  rw [dispatch_eq payload] at dispatched
  split at dispatched
  · cases dispatched
  next honest =>
    have same : f.envelope.senderId = i.id := Decidable.not_not.mp honest
    rw [← same, targets_eq] at dispatched
    refine ⟨same, ?_⟩
    split at dispatched
    · cases dispatched
      rfl
    · split at dispatched <;> cases dispatched
      rfl

/-- What is for everyone else is always dispatched. -/
theorem dispatch_of_broadcast (payload : f.envelope.kind ≠ .registration)
    (honest : f.envelope.senderId = i.id) (broadcast : f.envelope.recipient? = none) :
    G.dispatch i f = .ok ⟨f.relayed, G.destinations f.envelope⟩ := by
  rw [dispatch_eq payload, if_neg (Decidable.not_not.mpr honest), ← honest, targets_eq, broadcast]
  rfl

/-- What becomes of a frame of a client, by what is looked at first, second and last: its kind, its
sender and its recipient. -/
inductive Fate (G : Registry) (i : Identity) (f : Inbound) : Except RouteError Dispatch → Prop
  | notRoutable (registration : f.envelope.kind = .registration) :
      Fate G i f (.error (.notRoutable .registration))
  | spoofed (payload : f.envelope.kind ≠ .registration) (other : f.envelope.senderId ≠ i.id) :
      Fate G i f (.error (.spoofedSender f.envelope.senderId i.id))
  | unknown {id : String} (payload : f.envelope.kind ≠ .registration)
      (honest : f.envelope.senderId = i.id) (toOne : f.envelope.recipient? = some id)
      (absent : G.lookup id = none) : Fate G i f (.error (.unknownRecipient id))
  | toOne {id : String} {conn : ConnId} (payload : f.envelope.kind ≠ .registration)
      (honest : f.envelope.senderId = i.id) (toOne : f.envelope.recipient? = some id)
      (found : G.lookup id = some conn) : Fate G i f (.ok ⟨f.relayed, [conn]⟩)
  | toAll (payload : f.envelope.kind ≠ .registration) (honest : f.envelope.senderId = i.id)
      (toAll : f.envelope.recipient? = none) : Fate G i f (.ok ⟨f.relayed, G.others i.id⟩)

theorem fate_dispatch (G : Registry) (i : Identity) (f : Inbound) : Fate G i f (G.dispatch i f) := by
  by_cases registration : f.envelope.kind = .registration
  · obtain ⟨e, raw⟩ := f
    cases e <;> cases registration
    exact .notRoutable rfl
  · rw [dispatch_eq registration]
    by_cases honest : f.envelope.senderId = i.id
    · rw [if_neg (Decidable.not_not.mpr honest)]
      cases recipient : f.envelope.recipient? with
      | none => exact .toAll registration honest recipient
      | some id =>
        rw [targets]
        cases found : G.lookup id with
        | none => exact .unknown registration honest recipient found
        | some conn => exact .toOne registration honest recipient found
    · rw [if_pos honest]
      exact .spoofed registration honest

/-- A frame has one fate. -/
theorem Fate.dispatch_eq (fate : G.Fate i f result) : G.dispatch i f = result := by
  cases fate with
  | notRoutable registration =>
    obtain ⟨e, raw⟩ := f
    cases e <;> cases registration
    rfl
  | spoofed payload other => rw [Registry.dispatch_eq payload, if_pos other]
  | unknown payload honest toOne absent =>
    rw [Registry.dispatch_eq payload, if_neg (not_not_intro honest), toOne, targets, absent]
    rfl
  | toOne payload honest toOne found =>
    rw [Registry.dispatch_eq payload, if_neg (not_not_intro honest), toOne, targets, found]
    rfl
  | toAll payload honest toAll =>
    rw [Registry.dispatch_eq payload, if_neg (not_not_intro honest), toAll]
    rfl

theorem fate_iff : G.Fate i f result ↔ G.dispatch i f = result :=
  ⟨Fate.dispatch_eq, fun dispatched => dispatched ▸ G.fate_dispatch i f⟩

theorem dispatchJoin_eq (registration : f.envelope = .registration i) :
    G.dispatchJoin i = ⟨f.relayed, G.destinations f.envelope⟩ := by
  rw [Inbound.relayed, registration]
  rfl

end Registry

namespace Exchange

variable {x y : Exchange} {sender : Identity} {f : Inbound} {d : Dispatch} {e : RouteError}
  {delivery : Delivery}

theorem route_of_refused (refused : x.registry.dispatch sender f = .error e) :
    x.route sender f = (.error e, x) := by
  rw [route, refused]

theorem route_of_dispatched (dispatched : x.registry.dispatch sender f = .ok d) :
    x.route sender f =
      (.ok (x.postAll d.frame d.targets).1, (x.postAll d.frame d.targets).2) := by
  rw [route, dispatched]

theorem route_eq_error : x.route sender f = (.error e, y) ↔
    x.registry.Fate sender f (.error e) ∧ y = x := by
  rw [Registry.fate_iff]
  cases dispatched : x.registry.dispatch sender f with
  | error e' => simp [route_of_refused dispatched, eq_comm]
  | ok d => simp [route_of_dispatched dispatched]

theorem route_eq_ok : x.route sender f = (.ok delivery, y) ↔
    ∃ d, x.registry.Fate sender f (.ok d) ∧ x.postAll d.frame d.targets = (delivery, y) := by
  simp only [Registry.fate_iff]
  cases dispatched : x.registry.dispatch sender f with
  | error e' => simp [route_of_refused dispatched]
  | ok d => simp [route_of_dispatched dispatched, Prod.ext_iff]

end Exchange

end Mailroom
