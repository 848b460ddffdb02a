import Mailroom.Proofs.Relay.History

/-!
# What a step does to a session

For the registry and for the other sessions only two things count of a session: under which identity
it has registered, and what it is at. A `Turn` is a change of these two, with what happens to the
registry. Every step of a relay is a turn of one session, the arrival of a session, or neither; all
that is claimed of runs is derived from this and from what the steps do to the queues.
-/

namespace Mailroom

open History

namespace FrameReader

/-- Whatever holds of both ways in which scanning can end holds of its result. -/
theorem scan_cases {ρ : Type} {P : ρ → Prop} {limit : Nat} {wait : Bytes → Nat → ρ}
    {cut : Segment → Bytes → ρ} (waits : ∀ seen room, P (wait seen room))
    (cuts : ∀ segment rest, P (cut segment rest)) (seen : Bytes) (room : Nat) (s : Bytes) :
    P (scan limit wait cut seen room s) := by
  induction s generalizing seen room with
  | nil => exact waits seen room
  | cons b s ih =>
    rw [scan]
    split
    · dsimp only
      split
      · exact ih [] limit
      · exact cuts _ s
    · split
      · exact cuts _ s
      · exact ih (b :: seen) (room - 1)

/-- A frame that is read is the envelope that its bytes decode to. -/
def Decodes (result : Reading × FrameReader) : Prop :=
  ∀ f, result.1 = .frame f → Frame.decode f.raw = .ok f.envelope

theorem interpret_decodes (limit : Nat) (segment : Segment) (reader : FrameReader) :
    Decodes (interpret limit segment, reader) := by
  intro f read
  cases segment with
  | tooLarge => cases read
  | line raw =>
    dsimp only [interpret] at read
    split at read
    next envelope decoded =>
      cases read
      exact decoded
    next => cases read

theorem atEnd_decodes (isOpen : Bool) (seen : Bytes) (reader : FrameReader) :
    Decodes (atEnd isOpen seen, reader) := by
  intro f read
  dsimp only [atEnd] at read
  split at read
  · cases read
  · split at read <;> cases read

theorem pull_decodes (limit : Nat) (isOpen : Bool) (reads : List Read) (seen : Bytes)
    (room : Nat) (pending : Bytes) : Decodes (pull limit isOpen reads seen room pending) := by
  induction reads generalizing seen room pending with
  | nil =>
    exact scan_cases (P := Decodes) (fun seen _ => atEnd_decodes isOpen seen _)
      (fun segment _ => interpret_decodes limit segment _) seen room pending
  | cons next reads ih =>
    refine scan_cases (P := Decodes) ?_ (fun segment _ => interpret_decodes limit segment _)
      seen room pending
    intro seen room
    cases next with
    | bytes b => exact ih seen room b
    | failure reason =>
      intro f read
      cases read

theorem decode_of_next {reader reader' : FrameReader} {f : Inbound}
    (read : reader.next = (.frame f, reader')) : Frame.decode f.raw = .ok f.envelope := by
  rw [next] at read
  split at read
  · cases read
  · exact pull_decodes _ _ _ _ _ _ f (congrArg Prod.fst read)

end FrameReader

/-- What counts of a session for the others. -/
structure Standing where
  identity? : Option Identity
  activity : Activity

def Session.standing (s : Session) : Standing := ⟨s.identity?, s.activity⟩

/-- A change of the standing of a session that has read `n` frames, with what it shows and what it
makes of the registry. -/
inductive Turn (G : Registry) (conn : ConnId) (n : Nat) :
    Standing → Option Event → Standing → Registry → Prop
  /-- A registration is read that names an id, while one is awaited. -/
  | applies {i : Identity} {f : Inbound} (decoded : Frame.decode f.raw = .ok f.envelope)
      (registration : f.envelope = .registration i) (named : i.id ≠ "") :
      Turn G conn n ⟨none, .reading⟩ (some (.read conn (n + 1) none f)) ⟨none, .registering i⟩ G
  | ignores {i? : Option Identity} {f : Inbound} (decoded : Frame.decode f.raw = .ok f.envelope)
      (unusable : i? = none → ∀ i, f.envelope = .registration i → i.id = "")
      (again : i? ≠ none → f.envelope.kind = .registration) :
      Turn G conn n ⟨i?, .reading⟩ (some (.read conn (n + 1) i? f)) ⟨i?, .reading⟩ G
  | accepts {i : Identity} {f : Inbound} (decoded : Frame.decode f.raw = .ok f.envelope)
      (payload : f.envelope.kind ≠ .registration) :
      Turn G conn n ⟨some i, .reading⟩ (some (.read conn (n + 1) (some i) f))
        ⟨some i, .routing f⟩ G
  /-- Nothing more is read. -/
  | ends {i? : Option Identity} : Turn G conn n ⟨i?, .reading⟩ none ⟨i?, .closing⟩ G
  | registers {i? : Option Identity} {i : Identity} {G' : Registry}
      (free : G.register i conn = .ok G') :
      Turn G conn n ⟨i?, .registering i⟩ (some (.registered conn i)) ⟨some i, .joining⟩ G'
  | refused {i? : Option Identity} {i : Identity} (taken : (G.find? i.id).isSome) :
      Turn G conn n ⟨i?, .registering i⟩ none ⟨i?, .reading⟩ G
  | joins {i : Identity} :
      Turn G conn n ⟨some i, .joining⟩ (some (.addressed conn n G))
        ⟨some i, .ofDispatch (G.dispatchJoin i)⟩ G
  | routes {i : Identity} {f : Inbound} {d : Dispatch} (dispatched : G.dispatch i f = .ok d) :
      Turn G conn n ⟨some i, .routing f⟩ (some (.addressed conn n G)) ⟨some i, .ofDispatch d⟩ G
  | drops {i : Identity} {f : Inbound} {e : RouteError} (dropped : G.dispatch i f = .error e) :
      Turn G conn n ⟨some i, .routing f⟩ none ⟨some i, .reading⟩ G
  | queues {i? : Option Identity} {d : Dispatch} {target : ConnId} (due : target ∈ d.targets) :
      Turn G conn n ⟨i?, .posting d⟩ (some (.queued conn n target d.frame))
        ⟨i?, .ofDispatch { d with targets := d.targets.erase target }⟩ G
  | misses {i? : Option Identity} {d : Dispatch} {target : ConnId} (due : target ∈ d.targets) :
      Turn G conn n ⟨i?, .posting d⟩ (some (.missed conn n target))
        ⟨i?, .ofDispatch { d with targets := d.targets.erase target }⟩ G
  | hangsUp {i? : Option Identity} : Turn G conn n ⟨i?, .closing⟩ none ⟨i?, .leaving⟩ G
  | leaves {i? : Option Identity} :
      Turn G conn n ⟨i?, .leaving⟩ (some (.unregistered conn)) ⟨i?, .gone⟩ (G.unregister conn).2

theorem turn_actOn (G : Registry) (conn : ConnId) (n : Nat) (s : Session) {f : Inbound}
    (decoded : Frame.decode f.raw = .ok f.envelope) :
    Turn G conn n ⟨s.identity?, .reading⟩ (some (.read conn (n + 1) s.identity? f))
      ⟨s.identity?, s.actOn f⟩ G := by
  obtain ⟨identity?, activity, reader, writer⟩ := s
  obtain ⟨e, raw⟩ := f
  cases identity? with
  | none =>
    cases e with
    | registration i =>
      by_cases named : i.id = ""
      · simp only [Session.actOn, if_pos named]
        exact .ignores decoded (fun _ _ same => by cases same; exact named) (fun h => absurd rfl h)
      · simp only [Session.actOn, if_neg named]
        exact .applies decoded rfl named
    | chat c => exact .ignores decoded (fun _ _ same => by cases same) (fun h => absurd rfl h)
    | announcement a =>
      exact .ignores decoded (fun _ _ same => by cases same) (fun h => absurd rfl h)
    | chunk c => exact .ignores decoded (fun _ _ same => by cases same) (fun h => absurd rfl h)
  | some i =>
    cases e with
    | registration i => exact .ignores decoded (fun none => by cases none) (fun _ => rfl)
    | chat c => exact .accepts decoded (by simp [Envelope.kind])
    | announcement a => exact .accepts decoded (by simp [Envelope.kind])
    | chunk c => exact .accepts decoded (by simp [Envelope.kind])

namespace Relay

abbrev registry (r : Relay) : Registry := r.exchange.registry

def standing? (r : Relay) (conn : ConnId) : Option Standing := (r.session? conn).map Session.standing

/-- What a step does to the sessions and the registry, with what it shows. -/
inductive Move (h : History) (r r' : Relay) (e? : Option Event) : Prop
  | quiet (silent : e? = none) (registry : r'.registry = r.registry)
      (standing : ∀ c, r'.standing? c = r.standing? c)
  | arrival {conn : ConnId} {a : Activity} (silent : e? = none)
      (registry : r'.registry = r.registry) (unknown : r.standing? conn = none)
      (idle : a = .reading ∨ a = .gone) (arrived : r'.standing? conn = some ⟨none, a⟩)
      (others : ∀ c, c ≠ conn → r'.standing? c = r.standing? c)
  | turn {conn : ConnId} {st st' : Standing} (before : r.standing? conn = some st)
      (turn : Turn r.registry conn (reads h conn) st e? st' r'.registry)
      (after : r'.standing? conn = some st')
      (others : ∀ c, c ≠ conn → r'.standing? c = r.standing? c)

variable {h : History} {r r' : Relay} {conn target : ConnId} {s s' : Session} {x : Exchange}

theorem standing?_of_session? (found : r.session? conn = some s) :
    r.standing? conn = some s.standing := by
  rw [standing?, found, Option.map_some]

theorem session?_setSession_self (found : r.session? conn = some s) :
    (r.setSession conn s').session? conn = some s' := by
  have bound : conn < r.sessions.length := (List.getElem?_eq_some_iff.mp found).1
  simp [session?, setSession, bound]

theorem session?_setSession_of_ne {c : ConnId} (other : c ≠ conn) :
    (r.setSession conn s').session? c = r.session? c := by
  simp [session?, setSession, other.symm]

theorem standing_eq {i? : Option Identity} {a : Activity} (identity : s.identity? = i?)
    (activity : s.activity = a) : s.standing = ⟨i?, a⟩ := by
  rw [Session.standing, identity, activity]

theorem move_of_turn {e? : Option Event} {st : Standing} (found : r.session? conn = some s)
    (before : s.standing = st)
    (turn : Turn r.registry conn (reads h conn) st e? s'.standing x.registry) :
    Move h r { r.setSession conn s' with exchange := x } e? := by
  refine .turn (before ▸ standing?_of_session? found) turn
    (standing?_of_session? (session?_setSession_self found)) ?_
  intro c other
  exact congrArg (Option.map Session.standing) (session?_setSession_of_ne other)

theorem move_of_standing_eq (found : r.session? conn = some s) (same : s'.standing = s.standing)
    (registry : x.registry = r.registry) :
    Move h r { r.setSession conn s' with exchange := x } none := by
  refine .quiet rfl registry ?_
  intro c
  by_cases self : c = conn
  · subst self
    rw [standing?_of_session? found, ← same]
    exact standing?_of_session? (session?_setSession_self found)
  · exact congrArg (Option.map Session.standing) (session?_setSession_of_ne self)

theorem updateSession_cases {f : Session → Option Session}
    (taken : r.updateSession conn f = some r') :
    ∃ s s', r.session? conn = some s ∧ f s = some s' ∧ r' = r.setSession conn s' := by
  cases found : r.session? conn with
  | none => simp [updateSession, found] at taken
  | some s =>
    cases changed : f s with
    | none => simp [updateSession, found, changed] at taken
    | some s' =>
      refine ⟨s, s', rfl, changed, ?_⟩
      simpa [updateSession, found, changed, eq_comm] using taken

theorem updateWriter_cases {f : Writer → Connection → Option (Writer × Connection)}
    (taken : r.updateWriter conn f = some r') :
    ∃ s c w c', r.session? conn = some s ∧ r.connection? conn = some c ∧
      f s.writer c = some (w, c') ∧
      r' = { r.setSession conn { s with writer := w } with
        exchange := r.exchange.modify conn fun _ => c' } := by
  cases found : r.session? conn with
  | none => simp [updateWriter, found] at taken
  | some s =>
    cases connected : r.connection? conn with
    | none => simp [updateWriter, found, connected] at taken
    | some c =>
      cases changed : f s.writer c with
      | none => simp [updateWriter, found, connected, changed] at taken
      | some changes =>
        refine ⟨s, c, changes.1, changes.2, rfl, rfl, changed, ?_⟩
        simpa [updateWriter, found, connected, changed, eq_comm] using taken

theorem posting?_cases {d : Dispatch} {c : Connection}
    (posting : r.posting? conn target = some (s, d, c)) :
    r.session? conn = some s ∧ r.connection? target = some c ∧ s.activity = .posting d ∧
      target ∈ d.targets := by
  cases found : r.session? conn with
  | none => simp [posting?, found] at posting
  | some s =>
    cases connected : r.connection? target with
    | none => simp [posting?, found, connected] at posting
    | some c =>
      cases activity : s.activity with
      | posting d =>
        simp [posting?, found, connected, activity] at posting
        obtain ⟨due, rfl, rfl, rfl⟩ := posting
        exact ⟨rfl, rfl, activity, due⟩
      | _ => simp [posting?, found, connected, activity] at posting

theorem read_moves (taken : r.step (.read conn) = some r') :
    Move h r r' (r.event? h (.read conn)) := by
  obtain ⟨s, s', found, changed, rfl⟩ := updateSession_cases taken
  have reading : s.activity = .reading := by
    rw [Session.read?] at changed
    split at changed
    next reading => exact reading
    next => cases changed
  have before := standing_eq rfl reading
  rw [Session.read?, reading] at changed
  dsimp only at changed
  split at changed
  next => cases changed
  next f reader read =>
    cases changed
    simp only [event?, found, Option.bind_eq_bind, Option.bind_some, read]
    exact move_of_turn found before (turn_actOn _ _ _ s (FrameReader.decode_of_next read))
  next e reader read =>
    cases changed
    simp only [event?, found, Option.bind_eq_bind, Option.bind_some, read]
    exact move_of_turn found before .ends
  next reader read =>
    cases changed
    simp only [event?, found, Option.bind_eq_bind, Option.bind_some, read]
    exact move_of_turn found before .ends

/-- A registration takes its id if it is free, and is given up otherwise. -/
theorem register_cases (taken : r.step (.register conn) = some r') :
    ∃ s i, r.session? conn = some s ∧ s.activity = .registering i ∧
      ((∃ G, r.exchange.registry.register i conn = .ok G ∧
        r' = { r.setSession conn { s with identity? := some i, activity := .joining } with
          exchange := { r.exchange with registry := G } }) ∨
      (∃ e, r.exchange.registry.register i conn = .error e ∧
        r' = r.setSession conn { s with activity := .reading })) := by
  obtain ⟨s, found, taken⟩ := Option.bind_eq_some_iff.mp taken
  split at taken
  next i activity =>
    refine ⟨s, i, found, activity, ?_⟩
    rw [Exchange.register] at taken
    cases entered : r.exchange.registry.register i conn with
    | ok G =>
      rw [entered] at taken
      cases taken
      exact .inl ⟨G, rfl, rfl⟩
    | error e =>
      rw [entered] at taken
      cases taken
      exact .inr ⟨e, rfl, rfl⟩
  next => cases taken

theorem register_moves (taken : r.step (.register conn) = some r') :
    Move h r r' (r.event? h (.register conn)) := by
  obtain ⟨s, i, found, activity, ⟨G, entered, rfl⟩ | ⟨e, refused, rfl⟩⟩ := register_cases taken
  · simp only [event?, found, Option.bind_eq_bind, Option.bind_some, activity, entered]
    exact move_of_turn found (standing_eq rfl activity) (.registers entered)
  · simp only [event?, found, Option.bind_eq_bind, Option.bind_some, activity, refused]
    exact move_of_turn (x := r.exchange) found (standing_eq rfl activity)
      (.refused (Registry.register_eq_error_iff.mp refused).1)

theorem join_moves (taken : r.step (.join conn) = some r') :
    Move h r r' (r.event? h (.join conn)) := by
  obtain ⟨s, s', found, changed, rfl⟩ := updateSession_cases taken
  split at changed
  next i activity identity =>
    cases changed
    have turn : Turn r.registry conn (reads h conn) ⟨some i, .joining⟩ _ _ r.registry := .joins
    rw [← identity] at turn
    exact move_of_turn found (standing_eq rfl activity) turn
  next => cases changed

theorem route_moves (taken : r.step (.route conn) = some r') :
    Move h r r' (r.event? h (.route conn)) := by
  obtain ⟨s, s', found, changed, rfl⟩ := updateSession_cases taken
  split at changed
  next f i activity identity =>
    have before := standing_eq identity activity
    cases result : r.exchange.registry.dispatch i f with
    | ok d =>
      have made : r.event? h (.route conn) =
          some (.addressed conn (reads h conn) r.registry) := by
        simp [event?, found, activity, identity, result]
      have turn : Turn r.registry conn (reads h conn) ⟨some i, .routing f⟩
          (some (.addressed conn (reads h conn) r.registry)) ⟨some i, .ofDispatch d⟩
          r.registry := .routes result
      rw [result] at changed
      cases changed
      rw [← identity] at turn before
      rw [made]
      exact move_of_turn found before turn
    | error e =>
      have made : r.event? h (.route conn) = none := by
        simp [event?, found, activity, identity, result]
      have turn : Turn r.registry conn (reads h conn) ⟨some i, .routing f⟩ none
          ⟨some i, .reading⟩ r.registry := .drops result
      rw [result] at changed
      cases changed
      rw [← identity] at turn before
      rw [made]
      exact move_of_turn found before turn
  next => cases changed

theorem enqueue_cases (taken : r.step (.enqueue conn target) = some r') :
    ∃ s d c c', r.posting? conn target = some (s, d, c) ∧ c.send d.frame = (.ok (), c') ∧
      r' = { r.setPosted conn s d target with
        exchange := r.exchange.modify target fun _ => c' } := by
  cases posting : r.posting? conn target with
  | none => simp [step, posting] at taken
  | some p =>
    obtain ⟨s, d, c⟩ := p
    simp only [step, posting, Option.bind_eq_bind, Option.bind_some] at taken
    split at taken
    next c' sent =>
      cases taken
      exact ⟨s, d, c, c', rfl, sent, rfl⟩
    next => cases taken

theorem enqueue_moves (taken : r.step (.enqueue conn target) = some r') :
    Move h r r' (r.event? h (.enqueue conn target)) := by
  obtain ⟨s, d, c, c', posting, -, rfl⟩ := enqueue_cases taken
  obtain ⟨found, -, activity, due⟩ := posting?_cases posting
  simp only [event?, posting, Option.bind_eq_bind, Option.bind_some]
  exact move_of_turn found (standing_eq rfl activity) (.queues due)

/-- A frame is given up for a target because its queue is closed or because time runs out. -/
theorem missed_cases (taken : r.step (.refuse conn target) = some r' ∨
    r.step (.expire conn target) = some r') :
    ∃ s d c, r.posting? conn target = some (s, d, c) ∧ r' = r.setPosted conn s d target := by
  cases posting : r.posting? conn target with
  | none => simp [step, posting] at taken
  | some p =>
    obtain ⟨s, d, c⟩ := p
    refine ⟨s, d, c, rfl, ?_⟩
    simp only [step, posting, Option.bind_eq_bind, Option.bind_some] at taken
    rcases taken with refused | expired
    · split at refused <;> cases refused
      rfl
    · split at expired <;> cases expired
      rfl

theorem missed_moves (taken : r.step (.refuse conn target) = some r' ∨
    r.step (.expire conn target) = some r') :
    Move h r r' (some (.missed conn (reads h conn) target)) := by
  obtain ⟨s, d, c, posting, rfl⟩ := missed_cases taken
  obtain ⟨found, -, activity, due⟩ := posting?_cases posting
  exact move_of_turn (x := r.exchange) found (standing_eq rfl activity) (.misses due)

theorem standing?_append_of_ne (s : Session) {c : Nat} (other : c ≠ r.sessions.length) :
    ((r.sessions ++ [s])[c]?).map Session.standing = r.standing? c := by
  rcases Nat.lt_or_ge c r.sessions.length with before | after
  · rw [List.getElem?_append_left before, standing?, session?]
  · have beyond : (r.sessions ++ [s]).length ≤ c := by
      rw [List.length_append, List.length_singleton]
      omega
    rw [standing?, session?, List.getElem?_eq_none beyond, List.getElem?_eq_none after]

theorem accept_moves (peer : Address) : Move h r (r.accept peer) none := by
  have unknown : r.standing? r.sessions.length = none := by simp [standing?, session?]
  rw [accept]
  split
  · refine .arrival rfl rfl unknown (.inl rfl) ?_ (fun _ => standing?_append_of_ne _)
    simp [standing?, session?, Session.fresh, Session.standing]
  · refine .arrival rfl rfl unknown (.inr rfl) ?_ (fun _ => standing?_append_of_ne _)
    simp [standing?, session?, Session.refused, Session.fresh, Session.standing]

/-- A step that changes a session at one activity to another one. -/
theorem updateActivity_cases {a a' : Activity}
    (taken : (r.updateSession conn fun s =>
      if s.activity = a then some { s with activity := a' } else none) = some r') :
    ∃ s, r.session? conn = some s ∧ s.activity = a ∧
      r' = r.setSession conn { s with activity := a' } := by
  obtain ⟨s, s', found, changed, rfl⟩ := updateSession_cases taken
  split at changed
  next activity =>
    cases changed
    exact ⟨s, found, activity, rfl⟩
  next => cases changed

theorem notice_cases (taken : r.step (.notice conn) = some r') :
    ∃ s, r.session? conn = some s ∧ s.activity = .reading ∧
      r' = r.setSession conn { s with activity := .closing } := by
  obtain ⟨c, -, taken⟩ := Option.bind_eq_some_iff.mp taken
  obtain ⟨s, s', found, changed, rfl⟩ := updateSession_cases taken
  split at changed
  next noticed =>
    cases changed
    rw [Bool.and_eq_true, decide_eq_true_iff] at noticed
    exact ⟨s, found, noticed.1, rfl⟩
  next => cases changed

theorem hangUp_cases (taken : r.step (.hangUp conn) = some r') :
    ∃ s, r.session? conn = some s ∧ s.activity = .closing ∧
      r' = { r.setSession conn { s with activity := .leaving } with
        exchange := r.exchange.modify conn Connection.requestClose } := by
  obtain ⟨next, changed, last⟩ := Option.bind_eq_some_iff.mp taken
  obtain ⟨s, found, activity, rfl⟩ := updateActivity_cases changed
  cases last
  exact ⟨s, found, activity, rfl⟩

theorem unregister_cases (taken : r.step (.unregister conn) = some r') :
    ∃ s, r.session? conn = some s ∧ s.activity = .leaving ∧
      r' = { r.setSession conn { s with activity := .gone } with
        exchange := (r.exchange.unregister conn).2 } := by
  obtain ⟨next, changed, last⟩ := Option.bind_eq_some_iff.mp taken
  obtain ⟨s, found, activity, rfl⟩ := updateActivity_cases changed
  cases last
  exact ⟨s, found, activity, rfl⟩

/-- Every step that does not clear the registry is a turn of a session, the arrival of one, or
neither. -/
theorem step_moves {step : Step} (taken : r.step step = some r') (notClear : step ≠ .clear) :
    Move h r r' (r.event? h step) := by
  cases step with
  | clear => exact absurd rfl notClear
  | accept peer =>
    simp only [step] at taken
    split at taken
    · cases taken
      exact accept_moves peer
    · cases taken
  | arrive conn read =>
    obtain ⟨s, s', found, changed, rfl⟩ := updateSession_cases taken
    split at changed
    · cases changed
      exact move_of_standing_eq found rfl rfl
    · cases changed
  | finish conn =>
    obtain ⟨s, s', found, changed, rfl⟩ := updateSession_cases taken
    split at changed
    · cases changed
      exact move_of_standing_eq found rfl rfl
    · cases changed
  | read conn => exact read_moves taken
  | register conn => exact register_moves taken
  | join conn => exact join_moves taken
  | route conn => exact route_moves taken
  | enqueue conn target => exact enqueue_moves taken
  | refuse conn target => exact missed_moves (.inl taken)
  | expire conn target => exact missed_moves (.inr taken)
  | notice conn =>
    obtain ⟨s, found, activity, rfl⟩ := notice_cases taken
    exact move_of_turn (x := r.exchange) found (standing_eq rfl activity) .ends
  | hangUp conn =>
    obtain ⟨s, found, activity, rfl⟩ := hangUp_cases taken
    exact move_of_turn found (standing_eq rfl activity) .hangsUp
  | unregister conn =>
    obtain ⟨s, found, activity, rfl⟩ := unregister_cases taken
    exact move_of_turn found (standing_eq rfl activity) .leaves
  | take conn =>
    obtain ⟨s, c, w, c', found, -, -, rfl⟩ := updateWriter_cases taken
    exact move_of_standing_eq found rfl rfl
  | write conn n =>
    simp only [step] at taken
    obtain ⟨s, c, w, c', found, -, -, rfl⟩ := updateWriter_cases taken
    exact move_of_standing_eq found rfl rfl
  | stopWriter conn =>
    obtain ⟨s, c, w, c', found, -, -, rfl⟩ := updateWriter_cases taken
    exact move_of_standing_eq found rfl rfl
  | failWriter conn =>
    obtain ⟨s, c, w, c', found, -, -, rfl⟩ := updateWriter_cases taken
    exact move_of_standing_eq found rfl rfl
  | forceClose conn =>
    simp only [step] at taken
    split at taken
    · cases taken
      exact .quiet rfl rfl fun _ => rfl
    · cases taken
  | requestShutdown =>
    cases taken
    exact .quiet rfl rfl fun _ => rfl
  | stopAccepting =>
    simp only [step] at taken
    split at taken
    · cases taken
      exact .quiet rfl rfl fun _ => rfl
    · cases taken
  | stop =>
    simp only [step] at taken
    split at taken
    · cases taken
      exact .quiet rfl rfl fun _ => rfl
    · cases taken

/-- Clearing the registry is the one step that is no move. The sessions do not notice it. -/
theorem standing?_of_clear (taken : r.step .clear = some r') (k : ConnId) :
    r'.standing? k = r.standing? k := by
  simp only [step] at taken
  split at taken <;> cases taken
  rfl

end Relay

end Mailroom
