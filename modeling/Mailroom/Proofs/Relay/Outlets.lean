import Mailroom.Proofs.Connection.Traffic
import Mailroom.Proofs.Relay.Readers

/-!
# What passes to a client

The frames that were queued for a client, oldest first, are those that its writer has taken out and
then those that are still queued. Of the frames that were taken out all is written but an end of the
last one. A queue that was dropped has lost the frames that were not taken out. A queue never has
more frames than the relay's limits let it have.
-/

namespace Mailroom

open History

/-- Where the frames for a client pass. -/
@[ext]
structure Outlet where
  queue : Outbound
  writer : Writer

namespace Outlet

/-- What passes in one step, with the frames that are queued. -/
inductive Passes (o : Outlet) : List Bytes → Outlet → Prop
  | queues {frame : Bytes} (lets : o.queue.isClosed = false) (room : o.queue.isFull = false) :
      Passes o [frame] { o with queue := o.queue.push frame }
  | takes {q : Outbound} {frame : Bytes} (runs : o.writer.isRunning)
      (done : o.writer.unwritten = []) (first : o.queue.take = (.frame frame, q)) :
      Passes o [] ⟨q, { o.writer with unwritten := frame }⟩
  | writes {w : Writer} {n : Nat} (wrote : o.writer.write? n = some w) :
      Passes o [] { o with writer := w }
  | halts : Passes o [] ⟨o.queue.drop, { o.writer with isRunning := false }⟩

/-- The outlets of connections that were just accepted, with a queue or without one. -/
inductive Opens (capacity : Nat) : Outlet → Prop
  | usable : Opens capacity ⟨.ofCapacity capacity, .fresh⟩
  | refused :
      Opens capacity ⟨(Outbound.ofCapacity capacity).drop, { Writer.fresh with isRunning := false }⟩

/-- The frames that were queued in all are those that were taken out and those that are left. -/
def Carries (frames : List Bytes) (o : Outlet) : Prop :=
  ∃ taken left, frames = taken ++ left ∧
    o.writer.written ++ o.writer.unwritten = taken.flatten ∧
    (o.queue.frames = left ∨ o.queue.isClosed ∧ o.queue.frames = [])

theorem carries_of_opens {o : Outlet} {capacity : Nat} (opens : o.Opens capacity) :
    Carries [] o := by
  refine ⟨[], [], rfl, ?_, .inl ?_⟩
  · cases opens <;> rfl
  · cases opens <;> rfl

theorem carries_of_passes {o o' : Outlet} {frames added : List Bytes} (passes : Passes o added o')
    (carries : Carries frames o) : Carries (frames ++ added) o' := by
  obtain ⟨taken, left, whole, bytes, still⟩ := carries
  cases passes with
  | @queues frame lets room =>
    rcases still with still | ⟨closed, -⟩
    · refine ⟨taken, left ++ [frame], ?_, bytes, .inl ?_⟩
      · rw [whole, List.append_assoc]
      · rw [Outbound.push, still]
    · rw [lets] at closed
      cases closed
  | @takes q frame runs done first =>
    have front := Outbound.frames_of_take first
    rw [done, List.append_nil] at bytes
    rcases still with still | ⟨-, none⟩
    · refine ⟨taken ++ [frame], q.frames, ?_, ?_, .inl rfl⟩
      · rw [List.append_nil, whole, ← still, front, List.append_assoc, List.singleton_append]
      · rw [List.flatten_append, ← bytes, List.flatten_singleton]
    · rw [none] at front
      cases front
  | writes wrote =>
    obtain ⟨-, -, -, rfl⟩ := Writer.write?_cases wrote
    refine ⟨taken, left, by rw [List.append_nil, whole], ?_, still⟩
    rw [← bytes, List.append_assoc, List.take_append_drop]
  | halts => exact ⟨taken, left, by rw [List.append_nil, whole], bytes, .inr ⟨rfl, rfl⟩⟩

end Outlet

namespace Relay

variable {limits : Limits} {h : History} {r r' : Relay} {conn target : ConnId} {s s' : Session}
  {x : Exchange} {e? : Option Event}

def writers (r : Relay) : List Writer := r.sessions.map Session.writer

def queues (r : Relay) : List Outbound := r.exchange.connections.map Connection.queue

def outlet? (r : Relay) (conn : ConnId) : Option Outlet := do
  let queue ← r.queues[conn]?
  let writer ← r.writers[conn]?
  return ⟨queue, writer⟩

/-- What a step does to all that passes to clients. -/
inductive Flow (r r' : Relay) (e? : Option Event) : Prop
  | still (silent : ∀ t, framesFor e?.toList t = []) (writers : r'.writers = r.writers)
      (queues : r'.queues = r.queues)
  | opens {o : Outlet} (silent : ∀ t, framesFor e?.toList t = [])
      (opened : o.Opens r.limits.outboundCapacity)
      (writers : r'.writers = r.writers ++ [o.writer]) (queues : r'.queues = r.queues ++ [o.queue])
  | passes {conn : ConnId} {o o' : Outlet} (found : r.outlet? conn = some o)
      (passes : o.Passes (framesFor e?.toList conn) o')
      (silent : ∀ t, t ≠ conn → framesFor e?.toList t = [])
      (writers : r'.writers = r.writers.set conn o'.writer)
      (queues : r'.queues = r.queues.set conn o'.queue)

/-- Only the step that queues a frame shows that one is queued. -/
theorem event?_queued {step : Step} {c t : ConnId} {n : Nat} {frame : Bytes}
    (made : r.event? h step = some (.queued c n t frame)) :
    step = .enqueue c t ∧ n = reads h c ∧
      ∃ s d x, r.posting? c t = some (s, d, x) ∧ frame = d.frame := by
  cases shows_of_event? made
  cases posting : r.posting? c t with
  | none => simp [event?, posting] at made
  | some p =>
    obtain ⟨s, d, x⟩ := p
    simp only [event?, posting, Option.bind_eq_bind, Option.bind_some, Option.some.injEq,
      Event.queued.injEq, true_and] at made
    obtain ⟨rfl, rfl⟩ := made
    exact ⟨rfl, rfl, s, d, x, rfl, rfl⟩

def Step.isEnqueue : Step → Bool
  | .enqueue _ _ => true
  | _ => false

/-- Any other step queues nothing. -/
theorem framesFor_event? {step : Step} (other : step.isEnqueue = false) (target : ConnId) :
    framesFor (r.event? h step).toList target = [] := by
  cases made : r.event? h step with
  | none => rfl
  | some e =>
    cases e with
    | queued c n t frame =>
      obtain ⟨rfl, -, -⟩ := event?_queued made
      cases other
    | _ => rfl

theorem writers_setSession (r : Relay) (x : Exchange) (conn : ConnId) (s : Session) :
    ({ r.setSession conn s with exchange := x } : Relay).writers = r.writers.set conn s.writer := by
  simp [writers, setSession]

theorem set_of_getElem? {α : Type} {l : List α} {n : Nat} {a : α} (there : l[n]? = some a) :
    l.set n a = l := by
  obtain ⟨bound, rfl⟩ := List.getElem?_eq_some_iff.mp there
  exact List.set_getElem_self bound

theorem writer_of_session? (found : r.session? conn = some s) :
    r.writers[conn]? = some s.writer := by
  rw [writers, List.getElem?_map]
  exact congrArg (Option.map Session.writer) found

theorem queue_of_connection? {c : Connection} (found : r.connection? conn = some c) :
    r.queues[conn]? = some c.queue := by
  rw [queues, List.getElem?_map]
  exact congrArg (Option.map Connection.queue) found

theorem outlet?_eq {q : Outbound} {w : Writer} (queue : r.queues[conn]? = some q)
    (writer : r.writers[conn]? = some w) : r.outlet? conn = some ⟨q, w⟩ := by
  rw [outlet?, queue, writer]
  rfl

/-- To change a session but for its writer changes no writer. -/
theorem writers_setSession_of_eq (x : Exchange) (found : r.session? conn = some s)
    (same : s'.writer = s.writer) :
    ({ r.setSession conn s' with exchange := x } : Relay).writers = r.writers := by
  rw [writers_setSession, same, set_of_getElem? (writer_of_session? found)]

theorem queues_requestClose (x : Exchange) (conn : ConnId) :
    (x.modify conn Connection.requestClose).connections.map Connection.queue =
      x.connections.map Connection.queue := by
  apply List.ext_getElem?
  intro t
  rw [Exchange.modify, List.getElem?_map, List.getElem?_modify, List.getElem?_map]
  cases x.connections[t]? with
  | none => rfl
  | some c => split <;> rfl

theorem connection?_replace {c : Connection} (c' : Connection)
    (found : x.connection? conn = some c) :
    (x.modify conn fun _ => c').connection? conn = some c' := by
  rw [Exchange.connection?] at found
  simp [Exchange.connection?, Exchange.modify, found]

theorem queues_replace (x : Exchange) (conn : ConnId) (c : Connection) :
    (x.modify conn fun _ => c).connections.map Connection.queue =
      (x.connections.map Connection.queue).set conn c.queue := by
  apply List.ext_getElem?
  intro t
  rw [Exchange.modify, List.getElem?_map, List.getElem?_modify, List.getElem?_set,
    List.getElem?_map]
  cases found : x.connections[t]? with
  | none =>
    have beyond := List.getElem?_eq_none_iff.mp found
    split <;> simp
    omega
  | some c' =>
    have bound := (List.getElem?_eq_some_iff.mp found).1
    split <;> simp_all

theorem still_of_setSession {step : Step} (found : r.session? conn = some s)
    (same : s'.writer = s.writer)
    (queues : x.connections.map Connection.queue = r.queues) (other : step.isEnqueue = false) :
    Flow r { r.setSession conn s' with exchange := x } (r.event? h step) :=
  .still (framesFor_event? other) (writers_setSession_of_eq x found same) queues

theorem writer_of_read? (changed : s.read? = some s') : s'.writer = s.writer := by
  rw [Session.read?] at changed
  split at changed
  · split at changed <;> cases changed <;> rfl
  · cases changed

/-- A writer and its connection change as an outlet does. -/
theorem flow_of_updateWriter {f : Writer → Connection → Option (Writer × Connection)}
    {step : Step} (other : step.isEnqueue = false)
    (passes : ∀ w c w' c', f w c = some (w', c') →
      Outlet.Passes ⟨c.queue, w⟩ [] ⟨c'.queue, w'⟩)
    (taken : r.updateWriter conn f = some r') : Flow r r' (r.event? h step) := by
  obtain ⟨s, c, w, c', found, connected, changed, rfl⟩ := updateWriter_cases taken
  have silent : ∀ t, framesFor (r.event? h step).toList t = [] := framesFor_event? other
  refine @Flow.passes _ _ _ conn ⟨c.queue, s.writer⟩ ⟨c'.queue, w⟩
    (outlet?_eq (queue_of_connection? connected) (writer_of_session? found)) ?_
    (fun t _ => silent t) (writers_setSession _ _ _ _) (queues_replace _ _ _)
  rw [silent]
  exact passes _ _ _ _ changed

theorem passes_of_take? (w : Writer) (c : Connection) (w' : Writer) (c' : Connection)
    (took : w.take? c = some (w', c')) : Outlet.Passes ⟨c.queue, w⟩ [] ⟨c'.queue, w'⟩ := by
  obtain ⟨runs, done, frame, q, first, rfl, rfl⟩ := Writer.take?_cases took
  exact .takes runs done first

theorem passes_of_write? (n : Nat) (w : Writer) (c : Connection) (w' : Writer) (c' : Connection)
    (wrote : (w.write? n).map (fun w => (w, c)) = some (w', c')) :
    Outlet.Passes ⟨c.queue, w⟩ [] ⟨c'.queue, w'⟩ := by
  obtain ⟨w'', written, same⟩ := Option.map_eq_some_iff.mp wrote
  cases same
  exact .writes written

theorem passes_of_stop? (w : Writer) (c : Connection) (w' : Writer) (c' : Connection)
    (stopped : w.stop? c = some (w', c')) : Outlet.Passes ⟨c.queue, w⟩ [] ⟨c'.queue, w'⟩ := by
  obtain ⟨-, -, halted⟩ := Writer.stop?_cases stopped
  cases halted
  exact .halts

theorem passes_of_fail? (w : Writer) (c : Connection) (w' : Writer) (c' : Connection)
    (failed : w.fail? c = some (w', c')) : Outlet.Passes ⟨c.queue, w⟩ [] ⟨c'.queue, w'⟩ := by
  obtain ⟨-, -, halted⟩ := Writer.fail?_cases failed
  cases halted
  exact .halts

theorem enqueue_flows (aligned : r.writers.length = r.queues.length)
    (taken : r.step (.enqueue conn target) = some r') :
    Flow r r' (r.event? h (.enqueue conn target)) := by
  obtain ⟨s, d, c, c', posting, sent, rfl⟩ := enqueue_cases taken
  obtain ⟨found, connected, -, -⟩ := posting?_cases posting
  obtain ⟨lets, room, rfl⟩ := Connection.send_eq_ok_iff.mp sent
  have queue := queue_of_connection? connected
  have bound : target < r.writers.length := aligned ▸ (List.getElem?_eq_some_iff.mp queue).1
  have writer := List.getElem?_eq_getElem bound
  simp only [event?, posting, Option.bind_eq_bind, Option.bind_some]
  refine @Flow.passes _ _ _ target ⟨c.queue, r.writers[target]⟩
    ⟨c.queue.push d.frame, r.writers[target]⟩ (outlet?_eq queue writer) ?_ ?_ ?_
    (queues_replace _ _ _)
  · simp only [framesFor, Option.toList_some, List.filterMap_cons, Event.frameFor?, if_true,
      List.filterMap_nil]
    exact .queues lets room
  · intro t differs
    simp [framesFor, Event.frameFor?, differs.symm]
  · rw [set_of_getElem? writer]
    exact writers_setSession_of_eq _ found rfl

theorem accept_flows (peer : Address) : Flow r (r.accept peer) none := by
  rw [accept]
  split
  · exact .opens (fun _ => rfl) .usable List.map_append List.map_append
  · exact .opens (fun _ => rfl) .refused List.map_append List.map_append

theorem step_flows {step : Step} (aligned : r.writers.length = r.queues.length)
    (taken : r.step step = some r') (notClear : step ≠ .clear) :
    Flow r r' (r.event? h step) := by
  cases step with
  | clear => exact absurd rfl notClear
  | accept peer =>
    simp only [step] at taken
    split at taken <;> cases taken
    exact accept_flows peer
  | arrive conn read =>
    obtain ⟨s, s', found, changed, rfl⟩ := updateSession_cases taken
    split at changed <;> cases changed
    exact still_of_setSession (x := r.exchange) found rfl rfl rfl
  | finish conn =>
    obtain ⟨s, s', found, changed, rfl⟩ := updateSession_cases taken
    split at changed <;> cases changed
    exact still_of_setSession (x := r.exchange) found rfl rfl rfl
  | read conn =>
    obtain ⟨s, s', found, changed, rfl⟩ := updateSession_cases taken
    exact still_of_setSession (x := r.exchange) found (writer_of_read? changed) rfl rfl
  | register conn =>
    obtain ⟨s, i, found, -, ⟨G, -, rfl⟩ | ⟨e, -, rfl⟩⟩ := register_cases taken
    · exact still_of_setSession found rfl rfl rfl
    · exact still_of_setSession (x := r.exchange) found rfl rfl rfl
  | join conn =>
    obtain ⟨s, s', found, changed, rfl⟩ := updateSession_cases taken
    split at changed <;> cases changed
    exact still_of_setSession (x := r.exchange) found rfl rfl rfl
  | route conn =>
    obtain ⟨s, s', found, changed, rfl⟩ := updateSession_cases taken
    split at changed
    · split at changed <;> cases changed
      · exact still_of_setSession (x := r.exchange) found rfl rfl rfl
      · exact still_of_setSession (x := r.exchange) found rfl rfl rfl
    · cases changed
  | enqueue conn target => exact enqueue_flows aligned taken
  | refuse conn target =>
    obtain ⟨s, d, c, posting, rfl⟩ := missed_cases (.inl taken)
    obtain ⟨found, -, -, -⟩ := posting?_cases posting
    exact still_of_setSession (x := r.exchange) found rfl rfl rfl
  | expire conn target =>
    obtain ⟨s, d, c, posting, rfl⟩ := missed_cases (.inr taken)
    obtain ⟨found, -, -, -⟩ := posting?_cases posting
    exact still_of_setSession (x := r.exchange) found rfl rfl rfl
  | notice conn =>
    obtain ⟨s, found, -, rfl⟩ := notice_cases taken
    exact still_of_setSession (x := r.exchange) found rfl rfl rfl
  | hangUp conn =>
    obtain ⟨s, found, -, rfl⟩ := hangUp_cases taken
    exact still_of_setSession found rfl (queues_requestClose _ _) rfl
  | unregister conn =>
    obtain ⟨s, found, -, rfl⟩ := unregister_cases taken
    exact still_of_setSession found rfl rfl rfl
  | take conn => exact flow_of_updateWriter rfl passes_of_take? taken
  | write conn n => exact flow_of_updateWriter rfl (passes_of_write? n) taken
  | stopWriter conn => exact flow_of_updateWriter rfl passes_of_stop? taken
  | failWriter conn => exact flow_of_updateWriter rfl passes_of_fail? taken
  | forceClose conn =>
    simp only [step] at taken
    split at taken <;> cases taken
    exact .still (fun _ => rfl) rfl (queues_requestClose _ _)
  | requestShutdown =>
    cases taken
    refine .still (fun _ => rfl) rfl ?_
    simp [queues, requestShutdown, Function.comp_def, Connection.requestClose]
  | stopAccepting =>
    simp only [step] at taken
    split at taken <;> cases taken
    exact .still (fun _ => rfl) rfl rfl
  | stop =>
    simp only [step] at taken
    split at taken <;> cases taken
    exact .still (fun _ => rfl) rfl rfl

theorem aligned (reached : Reaches limits h r) : r.writers.length = r.queues.length := by
  induction reached with
  | fresh => rfl
  | @step h r r' s reached notClear taken ih =>
    have flow : Flow r r' (r.event? h s) := step_flows ih taken notClear
    cases flow with
    | still silent writers queues => rw [writers, queues, ih]
    | opens silent opened writers queues =>
      rw [writers, queues, List.length_append, List.length_append, ih, List.length_singleton,
        List.length_singleton]
    | passes found passes silent writers queues =>
      rw [writers, queues, List.length_set, List.length_set, ih]

theorem outlet?_eq_some_iff {o : Outlet} :
    r.outlet? conn = some o ↔ r.queues[conn]? = some o.queue ∧ r.writers[conn]? = some o.writer := by
  rw [outlet?]
  cases r.queues[conn]? with
  | none => simp
  | some q =>
    cases r.writers[conn]? with
    | none => simp
    | some w => simp [Outlet.ext_iff]

theorem framesFor_append (h h' : History) (conn : ConnId) :
    framesFor (h ++ h') conn = framesFor h conn ++ framesFor h' conn := List.filterMap_append

theorem limits_eq (reached : Reaches limits h r) : r.limits = limits := by
  induction reached with
  | fresh => rfl
  | step reached notClear taken ih => exact (step_keeps taken).1.trans ih

/-- What holds of each outlet that opens, and is kept by all that passes, holds at any time of the
frames that were ever queued for a client and the client's outlet. -/
theorem outlet_invariant {P : List Bytes → Outlet → Prop}
    (opens : ∀ o : Outlet, o.Opens limits.outboundCapacity → P [] o)
    (passes : ∀ (o o' : Outlet) frames added, o.Passes added o' → P frames o →
      P (frames ++ added) o')
    (reached : Reaches limits h r) (conn : ConnId) :
    (r.outlet? conn = none → framesFor h conn = []) ∧
      ∀ o, r.outlet? conn = some o → P (framesFor h conn) o := by
  induction reached with
  | fresh => exact ⟨fun _ => rfl, nofun⟩
  | @step h r r' s reached notClear taken ih =>
    have flow : Flow r r' (r.event? h s) := step_flows (aligned reached) taken notClear
    rw [framesFor_append]
    cases flow with
    | still silent writers queues =>
      rw [silent, List.append_nil, outlet?, writers, queues]
      exact ih
    | @opens o silent opened writers queues =>
      rw [silent, List.append_nil, outlet?, writers, queues]
      have same := aligned reached
      rcases Nat.lt_trichotomy conn r.queues.length with before | rfl | after
      · rw [List.getElem?_append_left before, List.getElem?_append_left (same ▸ before)]
        exact ih
      · have unknown : r.outlet? r.queues.length = none := by simp [outlet?]
        rw [ih.1 unknown, List.getElem?_concat_length, ← same, List.getElem?_concat_length]
        refine ⟨nofun, fun o found => ?_⟩
        cases found
        rw [limits_eq reached] at opened
        exact opens _ opened
      · have unknown : r.outlet? conn = none := by
          simp [outlet?, List.getElem?_eq_none (Nat.le_of_lt after)]
        have beyond : (r.queues ++ [o.queue])[conn]? = none := by
          rw [List.getElem?_eq_none_iff, List.length_append, List.length_singleton]
          exact after
        rw [beyond, ih.1 unknown]
        exact ⟨fun _ => rfl, nofun⟩
    | @passes c o o' found passed silent writers queues =>
      by_cases self : conn = c
      · subst self
        obtain ⟨queue, writer⟩ := outlet?_eq_some_iff.mp found
        have now : r'.outlet? conn = some o' := by
          refine outlet?_eq_some_iff.mpr ⟨?_, ?_⟩
          · rw [queues, List.getElem?_set_self (List.getElem?_eq_some_iff.mp queue).1]
          · rw [writers, List.getElem?_set_self (List.getElem?_eq_some_iff.mp writer).1]
        rw [now]
        refine ⟨nofun, fun o same => ?_⟩
        cases same
        exact passes _ _ _ _ passed (ih.2 _ found)
      · rw [silent conn self, List.append_nil, outlet?, writers, queues,
          List.getElem?_set_ne (Ne.symm self), List.getElem?_set_ne (Ne.symm self)]
        exact ih

/-- All that was ever queued for a client has passed its outlet or is lost with its queue. -/
theorem outlet_carries (reached : Reaches limits h r) (conn : ConnId) :
    (r.outlet? conn = none → framesFor h conn = []) ∧
      ∀ o, r.outlet? conn = some o → o.Carries (framesFor h conn) :=
  outlet_invariant (P := Outlet.Carries) (fun _ => Outlet.carries_of_opens)
    (fun _ _ _ _ => Outlet.carries_of_passes) reached conn

/-- The frames in a queue are the last ones that were queued. -/
theorem frames_suffix {c : Connection} (reached : Reaches limits h r)
    (found : r.connection? conn = some c) : c.queue.frames <:+ framesFor h conn := by
  have queue := queue_of_connection? found
  have bound : conn < r.writers.length :=
    aligned reached ▸ (List.getElem?_eq_some_iff.mp queue).1
  obtain ⟨taken, left, whole, -, still⟩ := (outlet_carries reached conn).2 _
    (outlet?_eq queue (List.getElem?_eq_getElem bound))
  rcases still with still | ⟨-, none⟩
  · exact ⟨taken, by rw [whole, ← still]⟩
  · rw [show c.queue.frames = [] from none]
    exact List.nil_suffix

/-- In a running relay, too, no queue has more frames than it may have, and the frames that are
queued for a client are written one after the other, each one as a whole but for the last that is
begun. -/
theorem outlet_conveys {o : Outlet} (reached : Reaches limits h r)
    (found : r.outlet? conn = some o) :
    o.queue.Fits limits.outboundCapacity ∧
      Traffic.Conveys (framesFor h conn) o.writer o.queue := by
  let P : List Bytes → Outlet → Prop := fun frames o =>
    o.queue.Fits limits.outboundCapacity ∧ Traffic.Conveys frames o.writer o.queue
  have opens : ∀ o : Outlet, o.Opens limits.outboundCapacity → P [] o := by
    intro o opened
    have fits := Outbound.fits_ofCapacity limits.outboundCapacity
    cases opened with
    | usable => exact ⟨fits, [], none, [], [], rfl, rfl, .none, fun _ => rfl⟩
    | refused => exact ⟨fits.drop, [], none, [], [], rfl, rfl, .none, fun _ => rfl⟩
  have passes : ∀ (o o' : Outlet) frames added, o.Passes added o' → P frames o →
      P (frames ++ added) o' := by
    rintro o o' frames added passed ⟨fits, conveys⟩
    cases passed with
    | @queues frame lets room => exact ⟨fits.push room frame, conveys.push frame⟩
    | takes runs done first =>
      rw [List.append_nil]
      exact ⟨fits.take first, conveys.take runs done first⟩
    | @writes w n wrote =>
      obtain ⟨-, -, -, rfl⟩ := Writer.write?_cases wrote
      rw [List.append_nil]
      exact ⟨fits, conveys.write n⟩
    | halts =>
      rw [List.append_nil]
      exact ⟨fits.drop, conveys.halt _⟩
  exact (outlet_invariant opens passes reached conn).2 o found

end Relay

end Mailroom
