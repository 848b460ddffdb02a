import Mailroom.Relay

/-!
# The history of a relay

What the steps of a run bring about, oldest first: which frames were read, who registered, where a
frame was found to go, where it was queued and where it was not. A history is recorded beside the
run and has no influence on it. The frames of a connection are numbered from one in the order in
which they are read, and whatever is done about a frame is recorded under its number.

States are considered as long as the registry has not been cleared, which only shutting down does.
-/

namespace Mailroom

inductive Event where
  /-- A frame is read. So far the client has registered as `identity?`. -/
  | read (conn : ConnId) (number : Nat) (identity? : Option Identity) (f : Inbound)
  | registered (conn : ConnId) (identity : Identity)
  /-- Where a frame goes is looked up in the registry as it is now. -/
  | addressed (conn : ConnId) (number : Nat) (registry : Registry)
  | queued (conn : ConnId) (number : Nat) (target : ConnId) (frame : Bytes)
  /-- A frame that goes to the target is not queued for it. -/
  | missed (conn : ConnId) (number : Nat) (target : ConnId)
  | unregistered (conn : ConnId)
  deriving DecidableEq

namespace Event

def isReadBy (conn : ConnId) : Event → Bool
  | .read c _ _ _ => c = conn
  | _ => false

/-- The identity that is registered on a connection. -/
def identityOn? (conn : ConnId) : Event → Option Identity
  | .registered c identity => if c = conn then some identity else none
  | _ => none

/-- The target for which a frame of a connection is queued. -/
def receiver? (conn : ConnId) (number : Nat) : Event → Option ConnId
  | .queued c n target _ => if c = conn ∧ n = number then some target else none
  | _ => none

/-- The target that a frame of a connection is tried on, with or without success. -/
def attempt? (conn : ConnId) (number : Nat) : Event → Option ConnId
  | .queued c n target _ => if c = conn ∧ n = number then some target else none
  | .missed c n target => if c = conn ∧ n = number then some target else none
  | _ => none

/-- The number of the frame of a connection that is queued for a target. -/
def numberFor? (conn target : ConnId) : Event → Option Nat
  | .queued c n t _ => if c = conn ∧ t = target then some n else none
  | _ => none

/-- The frame that is queued for a target. -/
def frameFor? (target : ConnId) : Event → Option Bytes
  | .queued _ _ t frame => if t = target then some frame else none
  | _ => none

variable {conn target : ConnId} {n : Nat} {identity : Identity} {frame : Bytes} {e : Event}

theorem identityOn?_eq_some :
    e.identityOn? conn = some identity ↔ e = .registered conn identity := by
  cases e <;> simp [identityOn?]

theorem receiver?_eq_some :
    e.receiver? conn n = some target ↔ ∃ frame, e = .queued conn n target frame := by
  cases e <;> simp [receiver?, and_assoc]

theorem attempt?_eq_some :
    e.attempt? conn n = some target ↔
      (∃ frame, e = .queued conn n target frame) ∨ e = .missed conn n target := by
  cases e <;> simp [attempt?, and_assoc]

theorem numberFor?_eq_some :
    e.numberFor? conn target = some n ↔ ∃ frame, e = .queued conn n target frame := by
  cases e <;> simp [numberFor?, and_left_comm, and_comm]

theorem frameFor?_eq_some :
    e.frameFor? target = some frame ↔ ∃ conn n, e = .queued conn n target frame := by
  cases e <;> simp [frameFor?]

end Event

abbrev History := List Event

namespace History

/-- How many frames a connection has read. -/
def reads (h : History) (conn : ConnId) : Nat := h.countP (Event.isReadBy conn)

/-- The identities under which a connection has registered. -/
def identities (h : History) (conn : ConnId) : List Identity :=
  h.filterMap (Event.identityOn? conn)

/-- The targets for which a frame was queued. -/
def receivers (h : History) (conn : ConnId) (number : Nat) : List ConnId :=
  h.filterMap (Event.receiver? conn number)

def attempts (h : History) (conn : ConnId) (number : Nat) : List ConnId :=
  h.filterMap (Event.attempt? conn number)

/-- The numbers of the frames of a connection that were queued for a target. -/
def numbersFor (h : History) (conn target : ConnId) : List Nat :=
  h.filterMap (Event.numberFor? conn target)

/-- The frames that were queued for a target, whoever sent them. -/
def framesFor (h : History) (target : ConnId) : List Bytes := h.filterMap (Event.frameFor? target)

variable {h : History} {conn target : ConnId} {n : Nat} {identity : Identity} {frame : Bytes}

theorem mem_identities : identity ∈ identities h conn ↔ .registered conn identity ∈ h := by
  simp [identities, Event.identityOn?_eq_some]

theorem mem_receivers :
    target ∈ receivers h conn n ↔ ∃ frame, .queued conn n target frame ∈ h := by
  simp only [receivers, List.mem_filterMap, Event.receiver?_eq_some]
  constructor
  · rintro ⟨e, made, frame, rfl⟩
    exact ⟨frame, made⟩
  · rintro ⟨frame, made⟩
    exact ⟨_, made, frame, rfl⟩

theorem mem_numbersFor :
    n ∈ numbersFor h conn target ↔ ∃ frame, .queued conn n target frame ∈ h := by
  simp only [numbersFor, List.mem_filterMap, Event.numberFor?_eq_some]
  constructor
  · rintro ⟨e, made, frame, rfl⟩
    exact ⟨frame, made⟩
  · rintro ⟨frame, made⟩
    exact ⟨_, made, frame, rfl⟩

theorem mem_framesFor :
    frame ∈ framesFor h target ↔ ∃ conn n, .queued conn n target frame ∈ h := by
  simp only [framesFor, List.mem_filterMap, Event.frameFor?_eq_some]
  constructor
  · rintro ⟨e, made, conn, n, rfl⟩
    exact ⟨conn, n, made⟩
  · rintro ⟨conn, n, made⟩
    exact ⟨_, made, conn, n, rfl⟩

end History

namespace Relay

open History

/-- What a step brings about, if it can be taken. -/
def event? (h : History) (r : Relay) : Step → Option Event
  | .read conn => do
    let s ← r.session? conn
    match s.reader.next with
    | (.frame f, _) => some (.read conn (reads h conn + 1) s.identity? f)
    | _ => none
  | .register conn => do
    let s ← r.session? conn
    match s.activity with
    | .registering identity =>
      match r.exchange.registry.register identity conn with
      | .ok _ => some (.registered conn identity)
      | .error _ => none
    | _ => none
  | .join conn => some (.addressed conn (reads h conn) r.exchange.registry)
  | .route conn => do
    let s ← r.session? conn
    match s.activity, s.identity? with
    | .routing f, some identity =>
      match r.exchange.registry.dispatch identity f with
      | .ok _ => some (.addressed conn (reads h conn) r.exchange.registry)
      | .error _ => none
    | _, _ => none
  | .enqueue conn target => do
    let (_, d, _) ← r.posting? conn target
    some (.queued conn (reads h conn) target d.frame)
  | .refuse conn target => some (.missed conn (reads h conn) target)
  | .expire conn target => some (.missed conn (reads h conn) target)
  | .unregister conn => some (.unregistered conn)
  | _ => none

/-- Which steps bring an event about. -/
inductive Shows : Step → Event → Prop
  | reads {conn : ConnId} {n : Nat} {i? : Option Identity} {f : Inbound} :
      Shows (.read conn) (.read conn n i? f)
  | registers {conn : ConnId} {i : Identity} : Shows (.register conn) (.registered conn i)
  | joins {conn : ConnId} {n : Nat} {G : Registry} : Shows (.join conn) (.addressed conn n G)
  | routes {conn : ConnId} {n : Nat} {G : Registry} : Shows (.route conn) (.addressed conn n G)
  | queues {conn target : ConnId} {n : Nat} {frame : Bytes} :
      Shows (.enqueue conn target) (.queued conn n target frame)
  | refuses {conn target : ConnId} {n : Nat} : Shows (.refuse conn target) (.missed conn n target)
  | expires {conn target : ConnId} {n : Nat} : Shows (.expire conn target) (.missed conn n target)
  | leaves {conn : ConnId} : Shows (.unregister conn) (.unregistered conn)

theorem shows_of_event? {h : History} {r : Relay} {step : Step} {e : Event}
    (made : r.event? h step = some e) : Shows step e := by
  cases step with
  | read conn =>
    obtain ⟨s, -, made⟩ := Option.bind_eq_some_iff.mp made
    split at made <;> cases made
    exact .reads
  | register conn =>
    obtain ⟨s, -, made⟩ := Option.bind_eq_some_iff.mp made
    split at made
    · split at made <;> cases made
      exact .registers
    · cases made
  | route conn =>
    obtain ⟨s, -, made⟩ := Option.bind_eq_some_iff.mp made
    split at made
    · split at made <;> cases made
      exact .routes
    · cases made
  | enqueue conn target =>
    obtain ⟨p, -, made⟩ := Option.bind_eq_some_iff.mp made
    cases made
    exact .queues
  | join conn =>
    cases made
    exact .joins
  | refuse conn target =>
    cases made
    exact .refuses
  | expire conn target =>
    cases made
    exact .expires
  | unregister conn =>
    cases made
    exact .leaves
  | _ => cases made

/-- The states that a relay can come to before its registry is cleared, each with the history that
has led to it. -/
inductive Reaches (limits : Limits) : History → Relay → Prop
  | fresh : Reaches limits [] (.fresh limits)
  | step {h : History} {r r' : Relay} {s : Step} (reached : Reaches limits h r)
      (notClear : s ≠ .clear) (taken : r.step s = some r') :
      Reaches limits (h ++ (r.event? h s).toList) r'

/-- A run together with what it adds to a history. -/
def record (h : History) (r : Relay) : List Step → Option (History × Relay)
  | [] => some (h, r)
  | s :: steps => do record (h ++ (r.event? h s).toList) (← r.step s) steps

theorem run_eq_record (h : History) (r : Relay) (steps : List Step) :
    r.run steps = (record h r steps).map Prod.snd := by
  induction steps generalizing h r with
  | nil => rfl
  | cons s steps ih =>
    cases taken : r.step s with
    | none => simp [run, record, taken]
    | some r' => simpa [run, record, taken] using ih (h ++ (r.event? h s).toList) r'

theorem run_cons (r : Relay) (step : Step) (steps : List Step) :
    r.run (step :: steps) = (r.step step).bind fun r' => r'.run steps := rfl

theorem run_append (r : Relay) (steps more : List Step) :
    r.run (steps ++ more) = (r.run steps).bind fun r' => r'.run more := by
  induction steps generalizing r with
  | nil => rfl
  | cons step steps ih =>
    cases taken : r.step step with
    | none => simp [run, taken]
    | some next => simpa [run, taken] using ih next

theorem record_append (h : History) (r : Relay) (steps more : List Step) :
    record h r (steps ++ more) = (record h r steps).bind fun (h', r') => record h' r' more := by
  induction steps generalizing h r with
  | nil => rfl
  | cons step steps ih =>
    cases taken : r.step step with
    | none => simp [record, taken]
    | some next => simpa [record, taken] using ih _ next

theorem run_concat (r : Relay) (steps : List Step) (s : Step) :
    r.run (steps ++ [s]) = (r.run steps).bind fun r' => r'.step s := by
  induction steps generalizing r with
  | nil => cases taken : r.step s <;> simp [run, taken]
  | cons first steps ih =>
    cases taken : r.step first with
    | none => simp [run, taken]
    | some next => simpa [run, taken] using ih next

variable {limits : Limits} {h h' : History} {r r' : Relay} {steps : List Step}

theorem run_of_record (recorded : record h r steps = some (h', r')) : r.run steps = some r' := by
  rw [run_eq_record h, recorded]
  rfl

theorem reaches_of_record (reached : Reaches limits h r) (notClear : .clear ∉ steps)
    (recorded : record h r steps = some (h', r')) : Reaches limits h' r' := by
  induction steps generalizing h r with
  | nil =>
    cases recorded
    exact reached
  | cons s steps ih =>
    obtain ⟨notFirst, notLater⟩ := not_or.mp (mt List.mem_cons.mpr notClear)
    cases taken : r.step s with
    | none => simp [record, taken] at recorded
    | some next =>
      rw [record, taken] at recorded
      exact ih (.step reached (Ne.symm notFirst) taken) notLater recorded

/-- Where steps lead, with their history. Steps that cannot be taken lead nowhere. -/
def outcome (limits : Limits) (steps : List Step) : History × Relay :=
  (record [] (.fresh limits) steps).getD ([], .fresh limits)

theorem reaches_outcome (limits : Limits) (steps : List Step) (notClear : .clear ∉ steps) :
    Reaches limits (outcome limits steps).1 (outcome limits steps).2 := by
  rw [outcome]
  cases recorded : record [] (.fresh limits) steps with
  | none => exact .fresh
  | some p => exact reaches_of_record .fresh notClear recorded

def ann : Identity := ⟨"a", "ann"⟩

def bob : Identity := ⟨"b", "bob"⟩

/-- A client connects and registers, and it is looked up whom to tell. -/
def enters (conn : ConnId) (i : Identity) : List Step :=
  [.accept (.v4 127 0 0 1 0), .arrive conn (.bytes (Frame.encode (.registration i))), .read conn,
    .register conn, .join conn]

def hello : Envelope := .chat ⟨ann.id, none, "hello"⟩

/-- Two clients register, and the first one greets everyone. -/
def greeting : List Step :=
  enters 0 ann ++ enters 1 bob ++ [.enqueue 1 0, .arrive 0 (.bytes (Frame.encode hello)), .read 0,
    .route 0, .enqueue 0 1]

/-- Reaching a state is running to it without clearing the registry. -/
theorem exists_reaches_iff :
    (∃ h, Reaches limits h r) ↔ ∃ steps, .clear ∉ steps ∧ (fresh limits).run steps = some r := by
  constructor
  · rintro ⟨h, reached⟩
    induction reached with
    | fresh => exact ⟨[], by simp, rfl⟩
    | @step h r r' s reached notClear taken ih =>
      obtain ⟨steps, notEarlier, ran⟩ := ih
      refine ⟨steps ++ [s], by simp [notEarlier, notClear.symm], ?_⟩
      rw [run_concat, ran, Option.bind_some, taken]
  · rintro ⟨steps, notClear, ran⟩
    rw [run_eq_record []] at ran
    obtain ⟨⟨h, r'⟩, recorded, rfl⟩ := Option.map_eq_some_iff.mp ran
    exact ⟨h, reaches_of_record .fresh notClear recorded⟩

/-- Whatever is in a history was brought about by a step, from a state that the history before it
leads to. -/
theorem step_of_reaches {h₁ h₂ : History} {e : Event} (reached : Reaches limits h r)
    (split : h = h₁ ++ e :: h₂) :
    ∃ r₁ s r₂, Reaches limits h₁ r₁ ∧ s ≠ .clear ∧ r₁.step s = some r₂ ∧ r₁.event? h₁ s = some e := by
  induction reached generalizing h₂ with
  | fresh => simp at split
  | @step h r r' s reached notClear taken ih =>
    cases made : r.event? h s with
    | none =>
      rw [made, Option.toList_none, List.append_nil] at split
      exact ih split
    | some last =>
      rw [made, Option.toList_some] at split
      rcases List.eq_nil_or_concat h₂ with rfl | ⟨later, now, rfl⟩
      · obtain ⟨rfl, same⟩ := List.append_inj' split rfl
        cases same
        exact ⟨r, s, r', reached, notClear, taken, made⟩
      · rw [List.concat_eq_append, ← List.cons_append, ← List.append_assoc] at split
        exact ih (List.append_inj' split rfl).1

end Relay

end Mailroom
