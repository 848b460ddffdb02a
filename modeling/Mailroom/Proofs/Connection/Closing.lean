import Mailroom.Proofs.Connection.Traffic
import Mailroom.Proofs.Registry.Entries
import Mailroom.Proofs.Routing.FanOut

/-!
# Closing a connection

A connection can come to be closed in two ways: closing is requested, or the receiving end of its
queue is closed or dropped. Whoever asks whether it is closed is told of both. Frames are refused
only in the second case, from then on and for good; a request alone makes no difference to any
delivery, and the frames that are queued after it are counted as delivered.

The receiving end may be in anybody's hands here. Frames are taken out, and the end is closed or
dropped, at any time, while any number of calls wait for room.
-/

namespace Mailroom

namespace Outbound

variable (q : Outbound)

theorem frames_take_suffix : q.take.2.frames <:+ q.frames := by
  rcases taken : q.take with ⟨_ | _ | _ | _, q'⟩
  case frame frame =>
    rw [frames_of_take taken]
    exact List.suffix_cons frame q'.frames
  all_goals
    unfold take at taken
    split at taken <;> cases taken
    exact List.suffix_rfl

theorem frames_close : q.close.frames = q.frames := by
  unfold close
  split <;> rfl

theorem isClosed_close : q.close.isClosed := by
  cases state : q.receivingEnd <;> simp [close, isClosed, state]

theorem isClosed_drop : q.drop.isClosed := rfl

theorem isClosed_push (frame : Bytes) : (q.push frame).isClosed = q.isClosed := rfl

end Outbound

namespace Connection

variable {c : Connection} {frame : Bytes}

theorem send_of_isClosed (shut : c.queue.isClosed) (frame : Bytes) :
    c.send frame = (.error .closed, c) := if_pos shut

/-- A frame is refused exactly if the receiving end is gone. -/
theorem send_eq_closed_iff : c.send frame = (.error .closed, c) ↔ c.queue.isClosed := by
  refine ⟨fun refused => ?_, fun shut => send_of_isClosed shut frame⟩
  have attempt := c.attempt_send frame
  rw [refused] at attempt
  cases attempt with
  | refused closed => exact decide_eq_true closed

/-- A request makes no difference to an attempt to queue a frame. -/
theorem send_requestClose (c : Connection) (frame : Bytes) :
    c.requestClose.send frame = ((c.send frame).1, (c.send frame).2.requestClose) := by
  cases closed : c.queue.isClosed <;> cases full : c.queue.isFull <;>
    simp [send, requestClose, closed, full]

end Connection

namespace Exchange

variable {x : Exchange} {conn other : ConnId} {c : Connection} {frame : Bytes}

theorem post_of_found (found : x.connection? conn = some c) (frame : Bytes) :
    x.post conn frame =
      ((c.send frame).1, { x with connections := x.connections.set conn (c.send frame).2 }) := by
  rw [post, found]

theorem post_of_isClosed (found : x.connection? conn = some c) (shut : c.queue.isClosed)
    (frame : Bytes) : x.post conn frame = (.error .closed, x) := by
  have same : x.connections.set conn c = x.connections := by
    obtain ⟨inside, rfl⟩ := List.getElem?_eq_some_iff.mp found
    exact List.set_getElem_self inside
  rw [post_of_found found, Connection.send_of_isClosed shut, same]

/-- A connection whose receiving end is gone is as if it were no target, but for its count. -/
theorem postAll_of_isClosed (found : x.connection? conn = some c) (shut : c.queue.isClosed)
    (frame : Bytes) (conns conns' : List ConnId) :
    x.postAll frame (conns ++ conn :: conns') =
      (⟨(x.postAll frame (conns ++ conns')).1.delivered,
        (x.postAll frame (conns ++ conns')).1.failed + 1⟩, (x.postAll frame (conns ++ conns')).2) := by
  induction conns generalizing x with
  | nil =>
    rw [List.nil_append, postAll, post_of_isClosed found shut frame]
    rfl
  | cons other conns ih =>
    -- The targets before it may have it among them: the attempt there changes nothing either.
    have found' : (x.post other frame).2.connection? conn = some c := by
      by_cases same : conn = other
      · rw [← same, post_of_isClosed found shut frame]
        exact found
      · rw [x.connection?_post_of_ne frame same]
        exact found
    have later := ih found'
    rcases posted : x.post other frame with ⟨e | ⟨⟨⟩⟩, x'⟩
    all_goals
      rw [posted] at later
      rw [List.cons_append, List.cons_append, postAll, posted, postAll, posted]
      dsimp only
      rw [later]

theorem post_requestClose (x : Exchange) (conn other : ConnId) (frame : Bytes) :
    (x.modify conn .requestClose).post other frame =
      ((x.post other frame).1, (x.post other frame).2.modify conn .requestClose) := by
  have found := x.connection?_modify conn other .requestClose
  cases here : x.connection? other with
  | none =>
    rw [here] at found
    rw [post, found, post, here]
    rfl
  | some c =>
    rw [here, Option.map_some] at found
    rw [post_of_found found, post_of_found here]
    by_cases same : conn = other
    · subst same
      rw [if_pos rfl, c.send_requestClose]
      refine Prod.ext rfl (ext_connections rfl fun i => ?_)
      by_cases mine : conn = i <;> simp [connection?, modify, List.getElem?_set, mine]
    · rw [if_neg same]
      refine Prod.ext rfl (ext_connections rfl fun i => ?_)
      by_cases its : other = i
      · subst its
        simp [connection?, modify, List.getElem?_set, same]
      · simp [connection?, modify, List.getElem?_modify, its]

/-- A request makes no difference to what is delivered, to whomever. -/
theorem postAll_requestClose (x : Exchange) (conn : ConnId) (frame : Bytes)
    (conns : List ConnId) :
    (x.modify conn .requestClose).postAll frame conns =
      ((x.postAll frame conns).1, (x.postAll frame conns).2.modify conn .requestClose) := by
  induction conns generalizing x with
  | nil => rfl
  | cons other conns ih =>
    rw [postAll, post_requestClose, postAll]
    rcases x.post other frame with ⟨e | ⟨⟨⟩⟩, x'⟩ <;> simp only [ih]

theorem route_requestClose (x : Exchange) (conn : ConnId) (sender : Identity) (f : Inbound) :
    (x.modify conn .requestClose).route sender f =
      ((x.route sender f).1, (x.route sender f).2.modify conn .requestClose) := by
  cases fate : x.registry.dispatch sender f with
  | error e => rw [route_of_refused fate, route_of_refused (x := x.modify conn _) fate]
  | ok d =>
    rw [route_of_dispatched fate, route_of_dispatched (x := x.modify conn _) fate,
      postAll_requestClose]

/-- A frame for one client is not delivered if the receiving end of that client is gone. -/
theorem route_of_isClosed {sender : Identity} {f : Inbound} {id : String} {delivery : Delivery}
    {y : Exchange} (found : x.connection? conn = some c) (shut : c.queue.isClosed)
    (toOne : f.envelope.recipient? = some id) (registered : x.registry.lookup id = some conn)
    (routed : x.route sender f = (.ok delivery, y)) : delivery = ⟨0, 1⟩ ∧ y = x := by
  obtain ⟨d, fate, posted⟩ := route_eq_ok.mp routed
  cases fate with
  | toOne _ _ toOne' found' =>
    cases toOne'.symm.trans toOne
    cases found'.symm.trans registered
    have refused := postAll_of_isClosed found shut f.relayed [] []
    cases posted.symm.trans refused
    exact ⟨rfl, rfl⟩
  | toAll _ _ toAll => cases toAll.symm.trans toOne

end Exchange

namespace Traffic

/-- What happens to a connection whose receiving end is in anybody's hands. -/
inductive Turn where
  | call (frame : Bytes)
  | attempt (k : Nat)
  | expire (k : Nat)
  | requestClose
  | receive
  | closeEnd
  | dropEnd
  deriving DecidableEq

def turn (t : Traffic) : Turn → Option Traffic
  | .call frame => t.step (.call frame)
  | .attempt k => t.step (.attempt k)
  | .expire k => t.step (.expire k)
  | .requestClose => t.step .requestClose
  | .receive => some { t with connection := t.connection.receive.2 }
  | .closeEnd => some { t with connection := { t.connection with queue := t.connection.queue.close } }
  | .dropEnd => some { t with connection := { t.connection with queue := t.connection.queue.drop } }

def turns (t : Traffic) : List Turn → Option Traffic
  | [] => some t
  | u :: us => do (← t.turn u).turns us

/-- What comes of a turn. -/
inductive Turned (t : Traffic) : Turn → Traffic → Prop
  | call (frame : Bytes) : Turned t (.call frame) { t with calls := t.calls ++ [⟨frame, none⟩] }
  | accepted {k : Nat} {frame : Bytes} (waiting : t.calls[k]? = some ⟨frame, none⟩)
      (lets : t.connection.queue.isClosed = false) :
      Turned t (.attempt k) { t.settle k (.ok ()) with
        connection := { t.connection with queue := t.connection.queue.push frame }
        accepted := t.accepted ++ [(k, frame)] }
  | refused {k : Nat} {frame : Bytes} (waiting : t.calls[k]? = some ⟨frame, none⟩)
      (shut : t.connection.queue.isClosed) : Turned t (.attempt k) (t.settle k (.error .closed))
  | expired {k : Nat} {frame : Bytes} (waiting : t.calls[k]? = some ⟨frame, none⟩)
      (lets : t.connection.queue.isClosed = false) :
      Turned t (.expire k) (t.settle k (.error (.timeout t.connection.timeoutMs)))
  | requestClose : Turned t .requestClose { t with connection := t.connection.requestClose }
  | receive :
      Turned t .receive { t with
        connection := { t.connection with queue := t.connection.queue.take.2 } }
  | closeEnd :
      Turned t .closeEnd { t with
        connection := { t.connection with queue := t.connection.queue.close } }
  | dropEnd :
      Turned t .dropEnd { t with
        connection := { t.connection with queue := t.connection.queue.drop } }

variable {t t' t'' : Traffic} {u : Turn} {us : List Turn} {peer : Address} {capacity timeoutMs : Nat}

theorem turned_of_turn (taken : t.turn u = some t') : Turned t u t' := by
  cases u with
  | attempt k =>
    obtain ⟨frame, waiting, taken⟩ := Option.bind_eq_some_iff.mp taken
    have waiting := waiting?_eq_some.mp waiting
    have attempt := t.connection.attempt_send frame
    generalize t.connection.send frame = sent at attempt taken
    obtain ⟨result, c⟩ := sent
    cases attempt with
    | queued receiving room =>
      cases taken
      exact .accepted waiting (by simp [Outbound.isClosed, receiving])
    | late => cases taken
    | refused closed =>
      cases taken
      exact .refused waiting (decide_eq_true closed)
  | expire k =>
    obtain ⟨frame, waiting, taken⟩ := Option.bind_eq_some_iff.mp taken
    split at taken
    next => cases taken
    next lets =>
      cases taken
      exact .expired (waiting?_eq_some.mp waiting) (eq_false_of_ne_true lets)
  | call | requestClose | receive | closeEnd | dropEnd =>
    cases taken
    constructor

theorem Turned.isClosing_iff (turned : Turned t u t') :
    t'.connection.isClosing ↔ t.connection.isClosing ∨ u = .requestClose := by
  cases turned <;> simp [settle, Connection.requestClose]

/-- Only the receiving end closes a queue. -/
theorem Turned.isClosed_iff (turned : Turned t u t') :
    t'.connection.queue.isClosed ↔
      t.connection.queue.isClosed ∨ u = .closeEnd ∨ u = .dropEnd := by
  cases turned with
  | receive => simp [Outbound.isClosed_take]
  | closeEnd => simp [Outbound.isClosed_close]
  | dropEnd => simp [Outbound.isClosed_drop]
  | call | accepted | refused | expired | requestClose =>
    simp [settle, Outbound.isClosed_push, Connection.requestClose]

/-- How a connection that was closed by its receiving end goes on. -/
structure Wanes (t t' : Traffic) : Prop where
  closed : t'.connection.queue.isClosed
  /-- What is queued is taken out or lost. -/
  frames : t'.connection.queue.frames <:+ t.connection.queue.frames
  accepted : t'.accepted = t.accepted
  /-- No call is accepted that was not accepted before. -/
  calls : ∀ (k : Nat) (frame : Bytes),
    t'.calls[k]? = some ⟨frame, some (.ok ())⟩ → t.calls[k]? = some ⟨frame, some (.ok ())⟩

theorem Turned.wanes (turned : Turned t u t') (shut : t.connection.queue.isClosed) :
    Wanes t t' := by
  have closed := turned.isClosed_iff.mpr (.inl shut)
  cases turned with
  | call frame =>
    refine ⟨closed, List.suffix_rfl, rfl, fun k other there => ?_⟩
    rw [List.getElem?_append] at there
    split at there
    · exact there
    · rw [List.getElem?_singleton] at there
      split at there <;> cases there
  | accepted _ lets => exact absurd shut (ne_true_of_eq_false lets)
  | @refused k frame waiting _ =>
    refine ⟨closed, List.suffix_rfl, rfl, fun m other there => ?_⟩
    by_cases same : m = k
    · subst same
      cases (getElem?_settle_self waiting).symm.trans there
    · rwa [getElem?_settle_of_ne same] at there
  | expired _ lets => exact absurd shut (ne_true_of_eq_false lets)
  | receive => exact ⟨closed, Outbound.frames_take_suffix _, rfl, fun _ _ => id⟩
  | requestClose => exact ⟨closed, List.suffix_rfl, rfl, fun _ _ => id⟩
  | closeEnd =>
    have same : [] ++ t.connection.queue.close.frames = t.connection.queue.frames :=
      t.connection.queue.frames_close
    exact ⟨closed, ⟨[], same⟩, rfl, fun _ _ => id⟩
  | dropEnd => exact ⟨closed, List.nil_suffix, rfl, fun _ _ => id⟩

theorem wanes_refl (shut : t.connection.queue.isClosed) : Wanes t t :=
  ⟨shut, List.suffix_rfl, rfl, fun _ _ => id⟩

theorem Wanes.trans (first : Wanes t t') (second : Wanes t' t'') : Wanes t t'' where
  closed := second.closed
  frames := second.frames.trans first.frames
  accepted := second.accepted.trans first.accepted
  calls k frame := first.calls k frame ∘ second.calls k frame

theorem wanes_of_turns (shut : t.connection.queue.isClosed) (ran : t.turns us = some t') :
    Wanes t t' := by
  induction us generalizing t with
  | nil =>
    cases ran
    exact wanes_refl shut
  | cons u us ih =>
    obtain ⟨next, taken, ran⟩ := Option.bind_eq_some_iff.mp ran
    have wanes := (turned_of_turn taken).wanes shut
    exact wanes.trans (ih wanes.closed ran)

/-- What has happened to a connection can be told from how it stands. -/
theorem told_of_turns (ran : t.turns us = some t') :
    (t'.connection.isClosing ↔ t.connection.isClosing ∨ .requestClose ∈ us) ∧
      (t'.connection.queue.isClosed ↔
        t.connection.queue.isClosed ∨ .closeEnd ∈ us ∨ .dropEnd ∈ us) := by
  induction us generalizing t with
  | nil =>
    cases ran
    simp
  | cons u us ih =>
    obtain ⟨next, taken, ran⟩ := Option.bind_eq_some_iff.mp ran
    have turned := turned_of_turn taken
    obtain ⟨closing, closed⟩ := ih ran
    constructor
    · rw [closing, turned.isClosing_iff, or_assoc, List.mem_cons, eq_comm (a := u)]
    · rw [closed, turned.isClosed_iff, or_assoc, or_or_or_comm, List.mem_cons, List.mem_cons,
        eq_comm (a := u), eq_comm (a := u)]

/-- A call that waits when the receiving end goes is refused then, and does not wait for its time to
run out. -/
theorem turn_of_waiting {k : Nat} {frame : Bytes} (shut : t.connection.queue.isClosed)
    (waiting : t.calls[k]? = some ⟨frame, none⟩) :
    t.turn (.attempt k) = some (t.settle k (.error .closed)) ∧ t.turn (.expire k) = none := by
  have waiting := waiting?_eq_some.mpr waiting
  constructor
  · simp [turn, step, waiting, Connection.send_of_isClosed shut]
  · simp [turn, step, waiting, shut]

/-- How a connection stands to which these turns have happened. -/
structure Stands (turns : List Turn) (t : Traffic) : Prop where
  isClosed : t.connection.isClosed ↔
    .requestClose ∈ turns ∨ .closeEnd ∈ turns ∨ .dropEnd ∈ turns
  refuses : ∀ frame, t.connection.send frame = (.error .closed, t.connection) ↔
    .closeEnd ∈ turns ∨ .dropEnd ∈ turns
  /-- Being closed is to take no frame unless closing was only requested. -/
  agrees : (t.connection.isClosed →
      ∀ frame, t.connection.send frame = (.error .closed, t.connection)) ↔
    (.requestClose ∈ turns → .closeEnd ∈ turns ∨ .dropEnd ∈ turns)
  /-- Without a receiving end nothing is queued any more, for no call whatsoever. -/
  wanes : .closeEnd ∈ turns ∨ .dropEnd ∈ turns → ∀ more t', t.turns more = some t' → Wanes t t'
  waiting : .closeEnd ∈ turns ∨ .dropEnd ∈ turns → ∀ (k : Nat) (frame : Bytes),
    t.calls[k]? = some ⟨frame, none⟩ →
      t.turn (.attempt k) = some (t.settle k (.error .closed)) ∧ t.turn (.expire k) = none
  direct : .closeEnd ∈ turns ∨ .dropEnd ∈ turns →
    ∀ (x y : Exchange) (conn : ConnId) (sender : Identity) (f : Inbound) (id : String)
      (delivery : Delivery), x.connection? conn = some t.connection →
        f.envelope.recipient? = some id → x.registry.lookup id = some conn →
          x.route sender f = (.ok delivery, y) → delivery = ⟨0, 1⟩ ∧ y = x
  /-- Whoever else a frame is for, this is a failure and nothing else. -/
  counted : .closeEnd ∈ turns ∨ .dropEnd ∈ turns →
    ∀ (x : Exchange) (conn : ConnId) (frame : Bytes) (conns conns' : List ConnId),
      x.connection? conn = some t.connection →
        x.postAll frame (conns ++ conn :: conns') =
          (⟨(x.postAll frame (conns ++ conns')).1.delivered,
            (x.postAll frame (conns ++ conns')).1.failed + 1⟩,
            (x.postAll frame (conns ++ conns')).2)
  /-- That closing was requested changes no delivery. -/
  requested : ∀ (x : Exchange) (conn : ConnId) (sender : Identity) (f : Inbound),
    (x.modify conn .requestClose).route sender f =
      ((x.route sender f).1, (x.route sender f).2.modify conn .requestClose)

/-- A connection is closed if closing was requested or if its receiving end is gone, and it takes no
frame exactly in the second case. -/
theorem frames_are_refused_without_receiver
    (ran : (fresh peer capacity timeoutMs).turns us = some t) : Stands us t := by
  obtain ⟨closing, closed⟩ := told_of_turns ran
  have closing : t.connection.isClosing ↔ .requestClose ∈ us :=
    closing.trans (or_iff_right (by simp [fresh, Connection.fresh]))
  have closed : t.connection.queue.isClosed ↔ .closeEnd ∈ us ∨ .dropEnd ∈ us :=
    closed.trans (or_iff_right (by simp [fresh, Connection.fresh, Outbound.ofCapacity,
      Outbound.isClosed]))
  have isClosed : t.connection.isClosed ↔
      .requestClose ∈ us ∨ .closeEnd ∈ us ∨ .dropEnd ∈ us := by
    rw [Connection.isClosed, Bool.or_eq_true, closing, closed]
  constructor
  case isClosed => exact isClosed
  case refuses => exact fun frame => Connection.send_eq_closed_iff.trans closed
  case agrees =>
    simp only [Connection.send_eq_closed_iff, closed, forall_const]
    rw [isClosed, or_imp, and_iff_left id]
  case wanes => exact fun gone more t' went => wanes_of_turns (closed.mpr gone) went
  case waiting => exact fun gone k frame waits => turn_of_waiting (closed.mpr gone) waits
  case counted =>
    intro gone x conn frame conns conns' found
    exact Exchange.postAll_of_isClosed found (closed.mpr gone) frame conns conns'
  case direct =>
    intro gone x y conn sender f id delivery found toOne registered routed
    exact Exchange.route_of_isClosed found (closed.mpr gone) toOne registered routed
  case requested => exact Exchange.route_requestClose

/-- One frame is queued and a call for another one waits when the receiving end is closed. -/
def late : List Turn := [.call [1], .attempt 0, .call [2], .closeEnd]

theorem frames_are_refused_without_receiver_late :
    ∃ t, (fresh (.v4 127 0 0 1 9) 1 50).turns late = some t ∧ t.connection.isClosed ∧
      t.turn (.expire 1) = none ∧
      ∀ more t', t.turns more = some t' → t'.accepted = [(0, [1])] := by
  obtain ⟨t, ran⟩ : ∃ t, (fresh (.v4 127 0 0 1 9) 1 50).turns late = some t := ⟨_, rfl⟩
  have stands := frames_are_refused_without_receiver ran
  have gone : .closeEnd ∈ late ∨ .dropEnd ∈ late := .inl (by decide)
  cases ran
  exact ⟨_, rfl, stands.isClosed.mpr (.inr gone), (stands.waiting gone 1 [2] rfl).2,
    fun more t' went => (stands.wanes gone more t' went).accepted⟩

/-- Closing was requested, and another client is announced there still. -/
theorem closed_connection_takes_frame :
    ∃ t, (fresh (.v4 127 0 0 1 9) 16 50).turns [.requestClose] = some t ∧
      t.connection.isClosed ∧ (t.connection.send [120, 10]).1 = .ok () ∧
      ((⟨⟨[⟨⟨"a", "ann"⟩, 0⟩]⟩, [t.connection]⟩ : Exchange).announceJoin ⟨"b", "bob"⟩).1 = ⟨1, 0⟩ :=
  ⟨_, rfl, rfl, rfl, rfl⟩

end Traffic

end Mailroom
