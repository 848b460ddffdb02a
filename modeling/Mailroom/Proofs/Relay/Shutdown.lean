import Mailroom.Proofs.Relay.Awaiting
import Mailroom.Proofs.Relay.Ownership

/-!
# Nothing is left behind

A relay that shuts down clears its registry while its sessions still run. A session may register
after that, or go on handing over what it has read; but each one gives up whatever entry it has when
it leaves, and has told its connection to close by then. Clearing takes entries away from sessions
and gives none, so when all sessions are gone nobody has one.

Here runs are considered whole, with the step that clears the registry.
-/

namespace Mailroom

open History

/-- What was closed stays closed. -/
structure Connection.Keeps (c c' : Connection) : Prop where
  closing : c.isClosing → c'.isClosing
  closed : c.queue.isClosed → c'.queue.isClosed

namespace Connection

variable {c c' c'' : Connection}

theorem keeps_refl (c : Connection) : c.Keeps c := ⟨id, id⟩

theorem Keeps.trans (first : c.Keeps c') (second : c'.Keeps c'') : c.Keeps c'' :=
  ⟨second.closing ∘ first.closing, second.closed ∘ first.closed⟩

theorem keeps_requestClose (c : Connection) : c.Keeps c.requestClose := ⟨fun _ => rfl, id⟩

theorem Keeps.isClosed (keeps : c.Keeps c') (closed : c.isClosed) : c'.isClosed := by
  rw [Connection.isClosed, Bool.or_eq_true] at closed ⊢
  exact closed.imp keeps.closing keeps.closed

theorem keeps_of_send {frame : Bytes} (sent : c.send frame = (.ok (), c')) : c.Keeps c' := by
  obtain ⟨-, -, rfl⟩ := send_eq_ok_iff.mp sent
  exact ⟨id, id⟩

theorem keeps_of_take {taken : Outbound.Taken} {q : Outbound} (first : c.queue.take = (taken, q)) :
    c.Keeps { c with queue := q } := by
  have kept := c.queue.isClosed_take
  rw [first] at kept
  exact ⟨id, fun closed => kept.trans closed⟩

theorem keeps_drop (c : Connection) : c.Keeps { c with queue := c.queue.drop } :=
  ⟨id, fun _ => rfl⟩

end Connection

/-- The same connections, and what was closed stays closed. -/
structure Exchange.Keeps (x x' : Exchange) : Prop where
  length : x'.connections.length = x.connections.length
  each : ∀ conn c', x'.connection? conn = some c' →
    ∃ c, x.connection? conn = some c ∧ c.Keeps c'

namespace Exchange

variable {x x' x'' : Exchange} {conn : ConnId} {c c' : Connection}

theorem keeps_of_connections_eq (same : x'.connections = x.connections) : x.Keeps x' := by
  refine ⟨congrArg List.length same, fun conn c' found => ⟨c', ?_, c'.keeps_refl⟩⟩
  rwa [connection?, same] at found

theorem Keeps.trans (first : x.Keeps x') (second : x'.Keeps x'') : x.Keeps x'' := by
  refine ⟨second.length.trans first.length, fun conn c'' found => ?_⟩
  obtain ⟨c', found', keeps'⟩ := second.each conn c'' found
  obtain ⟨c, found, keeps⟩ := first.each conn c' found'
  exact ⟨c, found, keeps.trans keeps'⟩

theorem keeps_modify {f : Connection → Connection}
    (keeps : ∀ c, x.connection? conn = some c → c.Keeps (f c)) : x.Keeps (x.modify conn f) := by
  refine ⟨List.length_modify _ _ _, fun k c' found => ?_⟩
  rw [connection?, modify, List.getElem?_modify] at found
  obtain ⟨c, there, rfl⟩ := Option.map_eq_some_iff.mp found
  refine ⟨c, there, ?_⟩
  split
  next same =>
    subst same
    exact keeps c there
  next => exact c.keeps_refl

theorem keeps_replace (found : x.connection? conn = some c) (keeps : c.Keeps c') :
    x.Keeps (x.modify conn fun _ => c') := by
  refine keeps_modify fun k there => ?_
  cases found.symm.trans there
  exact keeps

theorem keeps_requestClose (x : Exchange) (conn : ConnId) :
    x.Keeps (x.modify conn Connection.requestClose) :=
  keeps_modify fun c _ => c.keeps_requestClose

theorem keeps_drain (x : Exchange) : x.Keeps x.drain.2 := by
  have closes : ∀ (entries : List Registered) (x : Exchange),
      x.Keeps (entries.foldl (fun x e => x.modify e.conn .requestClose) x) := by
    intro entries
    induction entries with
    | nil => exact fun x => keeps_of_connections_eq rfl
    | cons e entries ih => exact fun x => (x.keeps_requestClose e.conn).trans (ih _)
  have emptied : x.Keeps { x with registry := .empty } := keeps_of_connections_eq rfl
  exact emptied.trans (closes x.registry.snapshot _)

end Exchange

/-- A session at this has told its connection to close. -/
def Activity.hasHungUp : Activity → Bool
  | .leaving | .gone => true
  | _ => false

@[simp]
theorem Activity.hasHungUp_ofDispatch (d : Dispatch) :
    (Activity.ofDispatch d).hasHungUp = false := by
  unfold ofDispatch
  split <;> rfl

/-- A session neither hangs up nor comes back. -/
structure Session.Stays (s s' : Session) : Prop where
  hungUp : s'.activity.hasHungUp → s.activity.hasHungUp
  gone : s.activity = .gone → s'.activity = .gone

namespace Session

variable {s s' : Session}

theorem stays_of_same (same : s'.activity = s.activity) : s.Stays s' := by
  constructor
  · rw [same]
    exact id
  · rw [same]
    exact id

theorem stays_of_busy {a : Activity} (before : s.activity = a) (busy : a.hasHungUp = false)
    (after : s'.activity.hasHungUp = false) : s.Stays s' := by
  constructor
  · intro hungUp
    rw [after] at hungUp
    cases hungUp
  · intro gone
    obtain rfl := before.symm.trans gone
    cases busy

theorem hasHungUp_actOnReading (s : Session) (reading : Reading) :
    (s.actOnReading reading).hasHungUp = false := by
  unfold actOnReading
  split
  · unfold actOn
    split
    · split <;> rfl
    · rfl
    · rfl
    · rfl
  · rfl

end Session

namespace Relay

variable {limits : Limits} {h h' : History} {r r' : Relay} {conn target : ConnId} {s s' : Session}
  {step : Step} {steps : List Step} {x : Exchange}

/-- What a step has to do with the end of a relay. -/
inductive Ending (r r' : Relay) : Prop
  /-- Nobody comes, hangs up or returns. -/
  | goesOn (phase : r'.phase = r.phase) (request : r'.isShuttingDown = r.isShuttingDown)
      (length : r'.sessions.length = r.sessions.length)
      (connections : r.exchange.Keeps r'.exchange)
      (sessions : ∀ conn s', r'.session? conn = some s' →
        ∃ s, r.session? conn = some s ∧ s.Stays s')
  | accepts (peer : Address) (accepting : r.phase = .accepting) (now : r' = r.accept peer)
  | hangsUp {conn : ConnId} {s : Session} (found : r.session? conn = some s)
      (closing : s.activity = .closing)
      (now : r' = { r.setSession conn { s with activity := .leaving } with
        exchange := r.exchange.modify conn Connection.requestClose })
  | requests (now : r' = r.requestShutdown)
  | stopsAccepting (requested : r.isShuttingDown) (now : r' = { r with phase := .clearing })
  | clears (clearing : r.phase = .clearing)
      (now : r' = { r with phase := .waiting, exchange := r.exchange.drain.2 })
  | stops (waiting : r.phase = .waiting) (gone : r.sessions.all Session.isGone)
      (now : r' = { r with phase := .stopped })

theorem ending_of_setSession (found : r.session? conn = some s) (stays : s.Stays s')
    (connections : r.exchange.Keeps x) :
    Ending r { r.setSession conn s' with exchange := x } := by
  refine .goesOn rfl rfl List.length_set connections fun k now there => ?_
  by_cases self : k = conn
  · subst self
    cases there.symm.trans (session?_setSession_self found)
    exact ⟨s, found, stays⟩
  · exact ⟨now, there.symm.trans (session?_setSession_of_ne self) ▸ rfl, Session.stays_of_same rfl⟩

/-- A writer changes nothing but the queue of its connection. -/
theorem ending_of_updateWriter {f : Writer → Connection → Option (Writer × Connection)}
    (keeps : ∀ w c w' c', f w c = some (w', c') → c.Keeps c')
    (taken : r.updateWriter conn f = some r') : Ending r r' := by
  obtain ⟨s, c, w, c', found, connected, changed, rfl⟩ := updateWriter_cases taken
  exact ending_of_setSession found (Session.stays_of_same rfl)
    (Exchange.keeps_replace connected (keeps _ _ _ _ changed))

theorem keeps_of_take? (w : Writer) (c : Connection) (w' : Writer) (c' : Connection)
    (took : w.take? c = some (w', c')) : c.Keeps c' := by
  obtain ⟨-, -, frame, q, first, -, rfl⟩ := Writer.take?_cases took
  exact Connection.keeps_of_take first

theorem keeps_of_write? {n : Nat} (w : Writer) (c : Connection) (w' : Writer) (c' : Connection)
    (wrote : (w.write? n).map (fun w => (w, c)) = some (w', c')) : c.Keeps c' := by
  obtain ⟨w'', -, same⟩ := Option.map_eq_some_iff.mp wrote
  cases same
  exact c.keeps_refl

theorem keeps_of_stop? (w : Writer) (c : Connection) (w' : Writer) (c' : Connection)
    (stopped : w.stop? c = some (w', c')) : c.Keeps c' := by
  obtain ⟨-, -, halted⟩ := Writer.stop?_cases stopped
  cases halted
  exact c.keeps_drop

theorem keeps_of_fail? (w : Writer) (c : Connection) (w' : Writer) (c' : Connection)
    (failed : w.fail? c = some (w', c')) : c.Keeps c' := by
  obtain ⟨-, -, halted⟩ := Writer.fail?_cases failed
  cases halted
  exact c.keeps_drop

theorem ending_of_step (taken : r.step step = some r') : Ending r r' := by
  have unchanged : r.exchange.Keeps r.exchange := Exchange.keeps_of_connections_eq rfl
  cases step with
  | accept peer =>
    simp only [Relay.step] at taken
    split at taken
    next accepting =>
      cases taken
      exact .accepts peer accepting rfl
    next => cases taken
  | arrive conn _ | finish conn =>
    obtain ⟨s, s', found, changed, rfl⟩ := updateSession_cases taken
    split at changed <;> cases changed
    exact ending_of_setSession found (Session.stays_of_same rfl) unchanged
  | read conn =>
    obtain ⟨s, found, reading, -, rfl⟩ := read_cases taken
    exact ending_of_setSession found
      (Session.stays_of_busy reading rfl (s.hasHungUp_actOnReading _)) unchanged
  | register conn =>
    obtain ⟨s, i, found, activity, ⟨G, -, rfl⟩ | ⟨e, -, rfl⟩⟩ := register_cases taken
    · exact ending_of_setSession found (Session.stays_of_busy activity rfl rfl)
        (Exchange.keeps_of_connections_eq rfl)
    · exact ending_of_setSession found (Session.stays_of_busy activity rfl rfl) unchanged
  | join conn =>
    obtain ⟨s, s', found, changed, rfl⟩ := updateSession_cases taken
    split at changed
    next i activity identity =>
      cases changed
      exact ending_of_setSession found (Session.stays_of_busy activity rfl (by simp)) unchanged
    next => cases changed
  | route conn =>
    obtain ⟨s, s', found, changed, rfl⟩ := updateSession_cases taken
    split at changed
    next f i activity identity =>
      split at changed <;> cases changed
      · exact ending_of_setSession found (Session.stays_of_busy activity rfl (by simp)) unchanged
      · exact ending_of_setSession found (Session.stays_of_busy activity rfl rfl) unchanged
    next => cases changed
  | enqueue conn target =>
    obtain ⟨s, d, c, c', posting, sent, rfl⟩ := enqueue_cases taken
    obtain ⟨found, connected, activity, -⟩ := posting?_cases posting
    exact ending_of_setSession found (Session.stays_of_busy activity rfl (by simp))
      (Exchange.keeps_replace connected (Connection.keeps_of_send sent))
  | refuse conn target =>
    obtain ⟨s, d, c, posting, rfl⟩ := missed_cases (.inl taken)
    obtain ⟨found, -, activity, -⟩ := posting?_cases posting
    exact ending_of_setSession found (Session.stays_of_busy activity rfl (by simp)) unchanged
  | expire conn target =>
    obtain ⟨s, d, c, posting, rfl⟩ := missed_cases (.inr taken)
    obtain ⟨found, -, activity, -⟩ := posting?_cases posting
    exact ending_of_setSession found (Session.stays_of_busy activity rfl (by simp)) unchanged
  | notice conn =>
    obtain ⟨s, found, activity, rfl⟩ := notice_cases taken
    exact ending_of_setSession found (Session.stays_of_busy activity rfl rfl) unchanged
  | hangUp conn =>
    obtain ⟨s, found, activity, rfl⟩ := hangUp_cases taken
    exact .hangsUp found activity rfl
  | unregister conn =>
    obtain ⟨s, found, activity, rfl⟩ := unregister_cases taken
    refine ending_of_setSession found ⟨fun _ => ?_, fun _ => rfl⟩
      (Exchange.keeps_of_connections_eq rfl)
    rw [activity, Activity.hasHungUp]
  | take conn => exact ending_of_updateWriter keeps_of_take? taken
  | write conn n => exact ending_of_updateWriter keeps_of_write? taken
  | stopWriter conn => exact ending_of_updateWriter keeps_of_stop? taken
  | failWriter conn => exact ending_of_updateWriter keeps_of_fail? taken
  | forceClose conn =>
    simp only [Relay.step] at taken
    split at taken <;> cases taken
    exact .goesOn rfl rfl rfl (r.exchange.keeps_requestClose conn)
      fun k s found => ⟨s, found, Session.stays_of_same rfl⟩
  | requestShutdown =>
    cases taken
    exact .requests rfl
  | stopAccepting =>
    simp only [Relay.step] at taken
    split at taken
    next ready =>
      cases taken
      rw [Bool.and_eq_true] at ready
      exact .stopsAccepting ready.2 rfl
    next => cases taken
  | clear =>
    simp only [Relay.step] at taken
    split at taken
    next clearing =>
      cases taken
      exact .clears clearing rfl
    next => cases taken
  | stop =>
    simp only [Relay.step] at taken
    split at taken
    next ready =>
      cases taken
      rw [Bool.and_eq_true, decide_eq_true_iff] at ready
      exact .stops ready.1 ready.2 rfl
    next => cases taken

/-- What is closed and who is gone, in whatever state a relay comes to. -/
structure Orderly (r : Relay) : Prop where
  paired : r.exchange.connections.length = r.sessions.length
  hungUp : ∀ conn s c, r.session? conn = some s → r.connection? conn = some c →
    s.activity.hasHungUp → c.isClosed
  closing : r.isShuttingDown → ∀ conn c, r.connection? conn = some c → c.isClosing
  requested : r.phase ≠ .accepting → r.isShuttingDown
  stopped : r.phase = .stopped → ∀ conn s, r.session? conn = some s → s.activity = .gone

theorem orderly_fresh (limits : Limits) : Orderly (.fresh limits) where
  paired := rfl
  hungUp conn s c found := by
    rw [session?, fresh, List.getElem?_nil] at found
    cases found
  closing requested := by
    rw [fresh] at requested
    cases requested
  requested later := absurd rfl later
  stopped stopped := by
    rw [fresh] at stopped
    cases stopped

theorem of_getElem?_concat {α : Type} {l : List α} {a b : α} {n : Nat}
    (found : (l ++ [a])[n]? = some b) : l[n]? = some b ∨ n = l.length ∧ a = b := by
  rw [List.getElem?_append] at found
  split at found
  · exact .inl found
  next after =>
    obtain ⟨bound, last⟩ := List.getElem?_eq_some_iff.mp found
    rw [List.length_singleton] at bound
    refine .inr ⟨by omega, ?_⟩
    rwa [List.getElem_singleton] at last

/-- A connection that comes is closing if all are, and it is closed if it could not be set up. -/
theorem accept_eq (r : Relay) (peer : Address) :
    ∃ c s, r.accept peer = { r with
        exchange := r.exchange.connect c
        sessions := r.sessions ++ [s] } ∧
      c.isClosing = r.isShuttingDown ∧ (s.activity.hasHungUp → c.isClosed) := by
  unfold accept
  split
  · exact ⟨_, _, rfl, rfl, nofun⟩
  · exact ⟨_, _, rfl, rfl, fun _ => Bool.or_true _⟩

/-- What was closed stays closed if no session hangs up that had not. -/
theorem Orderly.hungUp_of_keeps (orderly : Orderly r) (connections : r.exchange.Keeps r'.exchange)
    {c' : Connection} (found : r.session? conn = some s) (hungUp : s.activity.hasHungUp)
    (connected : r'.connection? conn = some c') : c'.isClosed := by
  obtain ⟨c, there, keeps⟩ := connections.each conn c' connected
  exact keeps.isClosed (orderly.hungUp conn s c found there hungUp)

theorem Orderly.closing_of_keeps (orderly : Orderly r) (connections : r.exchange.Keeps r'.exchange)
    (requested : r.isShuttingDown) {c' : Connection} (connected : r'.connection? conn = some c') :
    c'.isClosing := by
  obtain ⟨c, there, keeps⟩ := connections.each conn c' connected
  exact keeps.closing (orderly.closing requested conn c there)

theorem Orderly.of_accept (orderly : Orderly r) (peer : Address) (accepting : r.phase = .accepting) :
    Orderly (r.accept peer) := by
  obtain ⟨c, s, now, closing, closed⟩ := accept_eq r peer
  rw [now]
  have same := orderly.paired
  constructor
  · simp [Exchange.connect, same]
  · intro conn t d found connected hungUp
    obtain found | ⟨last, rfl⟩ := of_getElem?_concat found
    · obtain connected | ⟨last, rfl⟩ := of_getElem?_concat connected
      · exact orderly.hungUp conn t d found connected hungUp
      · have bound := (List.getElem?_eq_some_iff.mp found).1
        omega
    · obtain connected | ⟨-, rfl⟩ := of_getElem?_concat connected
      · have bound := (List.getElem?_eq_some_iff.mp connected).1
        omega
      · exact closed hungUp
  · intro requested conn d connected
    obtain connected | ⟨-, rfl⟩ := of_getElem?_concat connected
    · exact orderly.closing requested conn d connected
    · exact closing.trans requested
  · exact orderly.requested
  · intro stopped
    cases accepting.symm.trans stopped

theorem Orderly.of_hangUp (orderly : Orderly r) (found : r.session? conn = some s)
    (activity : s.activity = .closing) :
    Orderly { r.setSession conn { s with activity := .leaving } with
      exchange := r.exchange.modify conn Connection.requestClose } := by
  have keeps := r.exchange.keeps_requestClose conn
  constructor
  · simp [setSession, Exchange.modify, orderly.paired]
  · intro k t d there connected hungUp
    by_cases self : k = conn
    · subst self
      rw [connection?, Exchange.connection?, Exchange.modify, List.getElem?_modify] at connected
      obtain ⟨c, -, rfl⟩ := Option.map_eq_some_iff.mp connected
      rw [if_pos rfl]
      rfl
    · exact orderly.hungUp_of_keeps keeps ((session?_setSession_of_ne self).symm.trans there) hungUp
        connected
  · intro requested k d connected
    exact orderly.closing_of_keeps keeps requested connected
  · exact orderly.requested
  · intro stopped
    cases activity.symm.trans (orderly.stopped stopped conn s found)

theorem Orderly.of_ending (orderly : Orderly r) (ending : Ending r r') : Orderly r' := by
  cases ending with
  | goesOn phase request length connections sessions =>
    constructor
    · rw [connections.length, length, orderly.paired]
    · intro conn s' c' found connected hungUp
      obtain ⟨s, there, stays⟩ := sessions conn s' found
      exact orderly.hungUp_of_keeps connections there (stays.hungUp hungUp) connected
    · intro requested conn c' connected
      exact orderly.closing_of_keeps connections (request ▸ requested) connected
    · rw [phase, request]
      exact orderly.requested
    · intro stopped conn s' found
      obtain ⟨s, there, stays⟩ := sessions conn s' found
      exact stays.gone (orderly.stopped (phase ▸ stopped) conn s there)
  | accepts peer accepting now =>
    subst now
    exact orderly.of_accept peer accepting
  | hangsUp found activity now =>
    subst now
    exact orderly.of_hangUp found activity
  | requests now =>
    subst now
    have closes : ∀ conn c, r.requestShutdown.connection? conn = some c → c.isClosing := by
      intro conn c connected
      rw [connection?, Exchange.connection?, requestShutdown, List.getElem?_map] at connected
      obtain ⟨c₀, -, rfl⟩ := Option.map_eq_some_iff.mp connected
      rfl
    refine ⟨?_, ?_, fun _ => closes, fun _ => rfl, orderly.stopped⟩
    · simp [requestShutdown, orderly.paired]
    · intro conn s c found connected hungUp
      rw [Connection.isClosed, closes conn c connected, Bool.true_or]
  | stopsAccepting requested now =>
    subst now
    refine ⟨orderly.paired, orderly.hungUp, orderly.closing, fun _ => requested, ?_⟩
    intro stopped
    cases stopped
  | clears clearing now =>
    subst now
    have keeps := r.exchange.keeps_drain
    have requested : r.isShuttingDown := orderly.requested (by simp [clearing])
    refine ⟨keeps.length.trans orderly.paired, ?_, ?_, fun _ => requested, ?_⟩
    · intro conn s c found connected hungUp
      exact orderly.hungUp_of_keeps keeps found hungUp connected
    · intro requested conn c connected
      exact orderly.closing_of_keeps keeps requested connected
    · intro stopped
      cases stopped
  | stops waiting gone now =>
    subst now
    have requested : r.isShuttingDown := orderly.requested (by simp [waiting])
    refine ⟨orderly.paired, orderly.hungUp, orderly.closing, fun _ => requested, ?_⟩
    intro _ conn s found
    exact of_decide_eq_true (List.all_eq_true.mp gone s (List.mem_of_getElem? found))

theorem orderly_of_run (orderly : Orderly r) (ran : r.run steps = some r') : Orderly r' := by
  induction steps generalizing r with
  | nil =>
    cases ran
    exact orderly
  | cons step steps ih =>
    obtain ⟨next, taken, onward⟩ := Option.bind_eq_some_iff.mp ran
    exact ih (orderly.of_ending (ending_of_step taken)) onward

/-- The entries that a connection has are among those that its session has earned. -/
def Covered (r : Relay) (conn : ConnId) : Prop :=
  (r.registry.owned conn).Sublist (((r.standing? conn).map (Standing.entries · conn)).getD [])

end Relay

variable {G G' : Registry} {conn : ConnId} {n : Nat} {st st' : Standing} {e? : Option Event}
  {own : History}

/-- A session that has lost its entry gets none but by registering. -/
theorem Turn.owned_sublist (turn : Turn G conn n st e? st' G') (hand : InHand own conn n st)
    (before : (G.owned conn).Sublist (st.entries conn)) :
    (G'.owned conn).Sublist (st'.entries conn) := by
  cases turn with
  | registers free =>
    cases hand with
    | idle idle => cases idle
    | registering read registration named unaddressed =>
      have none : G.owned conn = [] := List.sublist_nil.mp before
      rw [Registry.owned_of_register free, if_pos rfl, none]
      exact .refl _
  | joins => rwa [Standing.entries_ofDispatch]
  | routes dispatched => rwa [Standing.entries_ofDispatch]
  | queues due => rwa [Standing.entries_ofDispatch]
  | misses due => rwa [Standing.entries_ofDispatch]
  | @leaves i? =>
    rw [Registry.owned_unregister, if_pos rfl]
    have rest := before.tail
    cases i? <;> exact rest
  | _ => exact before

namespace Relay

variable {limits : Limits} {h h' : History} {r r' : Relay} {step : Step} {steps : List Step}

theorem Covered.of_step (covered : Covered r conn) (onCourse : OnCourse h r conn)
    (taken : r.step step = some r') : Covered r' conn := by
  by_cases clears : step = .clear
  · have emptied : r'.registry.owned conn = [] := by
      subst clears
      simp only [Relay.step] at taken
      split at taken <;> cases taken
      rw [registry, r.exchange.registry_drain]
      rfl
    rw [Covered, emptied]
    exact List.nil_sublist _
  · have move : Move h r r' (r.event? h step) := step_moves taken clears
    unfold Covered at covered ⊢
    cases move with
    | quiet silent registry standing =>
      rw [registry, standing]
      exact covered
    | @arrival c a silent registry unknown idle arrived others =>
      rw [registry]
      by_cases self : conn = c
      · subst self
        rw [unknown] at covered
        exact covered.trans (List.nil_sublist _)
      · rw [others conn self]
        exact covered
    | @turn c st st' before turn after others =>
      by_cases self : conn = c
      · subst self
        rw [before] at covered
        rw [after]
        have hand := (onCourse.2 st before).inHand
        rw [reads_ofConn] at hand
        exact turn.owned_sublist hand covered
      · rw [turn.owned_of_ne self, others conn self]
        exact covered

theorem covered_of_record (recorded : record h r steps = some (h', r'))
    (onCourse : OnCourse h r conn) (covered : Covered r conn) : Covered r' conn := by
  induction steps generalizing h r with
  | nil =>
    cases recorded
    exact covered
  | cons step steps ih =>
    obtain ⟨next, taken, onward⟩ := Option.bind_eq_some_iff.mp recorded
    exact ih onward (onCourse.of_step taken) (covered.of_step onCourse taken)

/-- Who is gone has no entry. -/
theorem owned_of_gone (ran : (fresh limits).run steps = some r)
    (gone : ∀ s, r.session? conn = some s → s.activity = .gone) : r.registry.owned conn = [] := by
  rw [run_eq_record []] at ran
  obtain ⟨⟨h, r'⟩, recorded, rfl⟩ := Option.map_eq_some_iff.mp ran
  have covered : Covered r' conn :=
    covered_of_record recorded (onCourse_fresh limits conn) (List.nil_sublist _)
  unfold Covered standing? at covered
  cases found : r'.session? conn with
  | none =>
    rw [found] at covered
    exact List.sublist_nil.mp covered
  | some s =>
    have none : s.standing.entries conn = [] := if_pos (gone s found)
    rw [found, Option.map_some, Option.map_some, Option.getD_some, none] at covered
    exact List.sublist_nil.mp covered

/-- However a relay is shut down, it stops only when all sessions are gone; and whenever all sessions
are gone, nobody is registered and every connection that was ever accepted is closed, and was told
so by the relay if it is shutting down. -/
theorem shutdown_leaves_nothing_behind (ran : (fresh limits).run steps = some r) :
    (r.phase ≠ .accepting → r.isShuttingDown) ∧
    (r.phase = .stopped → r.sessions.all Session.isGone) ∧
    (r.sessions.all Session.isGone →
      r.registry.entries = [] ∧ r.exchange.connections.length = steps.countP Step.isAccept ∧
        ∀ c ∈ r.exchange.connections, c.isClosed ∧ (r.isShuttingDown → c.isClosing)) := by
  have orderly := orderly_of_run (orderly_fresh limits) ran
  refine ⟨orderly.requested, ?_, ?_⟩
  · intro stopped
    refine List.all_eq_true.mpr fun s there => ?_
    obtain ⟨conn, found⟩ := List.getElem?_of_mem there
    exact decide_eq_true (orderly.stopped stopped conn s found)
  · intro gone
    have each : ∀ conn s, r.session? conn = some s → s.activity = .gone := fun conn s found =>
      of_decide_eq_true (List.all_eq_true.mp gone s (List.mem_of_getElem? found))
    refine ⟨?_, orderly.paired.trans (length_of_run ran), ?_⟩
    · refine List.eq_nil_iff_forall_not_mem.mpr fun e there => ?_
      have own := Registry.mem_owned.mpr ⟨there, rfl⟩
      rw [owned_of_gone ran (each e.conn)] at own
      cases own
    · intro c there
      obtain ⟨conn, connected⟩ := List.getElem?_of_mem there
      have bound := (List.getElem?_eq_some_iff.mp connected).1
      have known : conn < r.sessions.length := orderly.paired ▸ bound
      have found : r.session? conn = some r.sessions[conn] := List.getElem?_eq_getElem known
      have hungUp : r.sessions[conn].activity.hasHungUp := by
        rw [each conn _ found]
        rfl
      exact ⟨orderly.hungUp conn _ c found connected hungUp,
        fun requested => orderly.closing requested conn c connected⟩

/-- The registration of a client arrives before the relay shuts down and is read after the registry
was cleared, so that the client has an entry again for a while. -/
def lateRegistration : List Step :=
  enters 0 ann ++ (enters 1 bob).take 2 ++ [.requestShutdown, .stopAccepting, .clear, .read 1,
    .register 1, .join 1, .notice 0, .hangUp 0, .notice 1, .hangUp 1, .unregister 0, .unregister 1,
    .stop]

theorem shutdown_leaves_nothing_behind_late :
    ((fresh ⟨4, 50, 1000⟩).run (lateRegistration.take 12)).map (fun r => r.registry.entries) =
        some [⟨bob, 1⟩] ∧
      ∃ r, (fresh ⟨4, 50, 1000⟩).run lateRegistration = some r ∧ r.phase = .stopped ∧
        r.registry.entries = [] ∧ r.exchange.connections.length = 2 := by
  have registers : ((fresh ⟨4, 50, 1000⟩).run (lateRegistration.take 12)).map
      (fun r => r.registry.entries) = some [⟨bob, 1⟩] := by
    decide +kernel
  have stops : ((fresh ⟨4, 50, 1000⟩).run lateRegistration).map Relay.phase = some .stopped := by
    decide +kernel
  obtain ⟨r, ran, stopped⟩ := Option.map_eq_some_iff.mp stops
  obtain ⟨-, waits, emptied⟩ := shutdown_leaves_nothing_behind ran
  obtain ⟨entries, count, -⟩ := emptied (waits stopped)
  have accepts : lateRegistration.countP Step.isAccept = 2 := by decide +kernel
  exact ⟨registers, r, ran, stopped, entries, count.trans accepts⟩

end Relay

end Mailroom
