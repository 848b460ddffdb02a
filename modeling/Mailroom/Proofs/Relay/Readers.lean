import Mailroom.Proofs.Frame.Arrivals
import Mailroom.Proofs.Relay.Turn

/-!
# The reader of one connection

What arrives from a client changes the reader of its connection and nothing else, and only when the
session reads does the reader count. Every other step is the same whatever the reader holds, and
leaves it as it is.

A session that has come to the end of its stream reads no more, whatever arrives.
-/

namespace Mailroom

namespace FrameReader

theorem isOpen_pull (limit : Nat) (isOpen : Bool) (reads : List Read) (seen : Bytes) (room : Nat)
    (pending : Bytes) : (pull limit isOpen reads seen room pending).2.isOpen = isOpen := by
  induction reads generalizing seen room pending with
  | nil =>
    exact scan_cases (P := fun result : Reading × FrameReader => result.2.isOpen = isOpen)
      (fun _ _ => rfl) (fun _ _ => rfl) seen room pending
  | cons read reads ih =>
    refine scan_cases (P := fun result : Reading × FrameReader => result.2.isOpen = isOpen)
      ?_ (fun _ _ => rfl) seen room pending
    intro seen room
    cases read with
    | bytes b => exact ih seen room b
    | failure reason => rfl

theorem isOpen_next (x : FrameReader) : x.next.2.isOpen = x.isOpen := by
  rw [next]
  split
  · rfl
  · exact isOpen_pull _ _ _ _ _ _

end FrameReader

/-- A session at this reads no more. -/
def Activity.isSpent : Activity → Bool
  | .closing | .leaving | .gone => true
  | _ => false

theorem Turn.spent {G G' : Registry} {conn : ConnId} {n : Nat} {st st' : Standing}
    {e? : Option Event} (turn : Turn G conn n st e? st' G') (spent : st.activity.isSpent) :
    st'.activity.isSpent := by
  cases turn with
  | hangsUp => rfl
  | leaves => rfl
  | _ => cases spent

namespace Session

/-- The session at the place `k`, if the reader of the connection `conn` is another one. -/
def reread (conn : ConnId) (x : FrameReader) (k : ConnId) (s : Session) : Session :=
  if conn = k then { s with reader := x } else s

variable {conn k : ConnId} {x : FrameReader} {s : Session}

@[simp]
theorem reread_activity : (s.reread conn x k).activity = s.activity := by
  unfold reread
  split <;> rfl

@[simp]
theorem reread_writer : (s.reread conn x k).writer = s.writer := by
  unfold reread
  split <;> rfl

theorem reread_reader : (s.reread conn x conn).reader = x := by rw [reread, if_pos rfl]

theorem reread_with_activity (s : Session) (a : Activity) :
    { s.reread conn x k with activity := a } = { s with activity := a }.reread conn x k := by
  unfold reread
  split <;> rfl

theorem reread_with_writer (s : Session) (w : Writer) :
    { s.reread conn x k with writer := w } = { s with writer := w }.reread conn x k := by
  unfold reread
  split <;> rfl

theorem reread_with_identity (s : Session) (i? : Option Identity) (a : Activity) :
    { s.reread conn x k with identity? := i?, activity := a } =
      { s with identity? := i?, activity := a }.reread conn x k := by
  unfold reread
  split <;> rfl

theorem reread_eq_id (other : k ≠ conn) : reread conn x k = id :=
  funext fun _ => if_neg other.symm

/-- What a session does about a reading. -/
def actOnReading (s : Session) : Reading → Activity
  | .frame f => s.actOn f
  | _ => .closing

theorem actOnReading_of_no_frame {reading : Reading} (none : ∀ f, reading ≠ .frame f) :
    s.actOnReading reading = .closing := by
  unfold actOnReading
  split
  next f => exact absurd rfl (none f)
  next => rfl

theorem read?_eq_some_iff {s' : Session} :
    s.read? = some s' ↔ s.activity = .reading ∧ s.reader.next.1 ≠ .waiting ∧
      s' = { s with activity := s.actOnReading s.reader.next.1, reader := s.reader.next.2 } := by
  rw [read?]
  split
  next reading =>
    split
    next x given => simp [given, reading]
    next f x given => simp [given, reading, actOnReading, eq_comm]
    next e x given => simp [given, reading, actOnReading, eq_comm]
    next x given => simp [given, reading, actOnReading, eq_comm]
  next other =>
    constructor
    · intro taken
      cases taken
    · intro taken
      exact absurd taken.1 other

end Session

namespace Relay

/-- The same relay with another reader of a connection. -/
def withReader (r : Relay) (conn : ConnId) (x : FrameReader) : Relay :=
  { r with sessions := r.sessions.modify conn fun s => { s with reader := x } }

def Step.isAccept : Step → Bool
  | .accept _ => true
  | _ => false

/-- Something arrives from a client, or nothing more will. -/
def Step.feeds (conn : ConnId) : Step → Bool
  | .arrive c _ => c = conn
  | .finish c => c = conn
  | _ => false

variable {r r' : Relay} {conn k target : ConnId} {x y : FrameReader} {s : Session} {step : Step}

@[simp]
theorem exchange_withReader : (r.withReader conn x).exchange = r.exchange := rfl

@[simp]
theorem connection?_withReader : (r.withReader conn x).connection? k = r.connection? k := rfl

theorem session?_withReader (r : Relay) (conn : ConnId) (x : FrameReader) (k : ConnId) :
    (r.withReader conn x).session? k = (r.session? k).map (Session.reread conn x k) := by
  rw [session?, withReader, List.getElem?_modify]
  rfl

theorem session?_withReader_of_ne (r : Relay) (x : FrameReader) (other : k ≠ conn) :
    (r.withReader conn x).session? k = r.session? k := by
  rw [session?_withReader, Session.reread_eq_id other, Option.map_id]
  rfl

theorem setSession_withReader (r : Relay) (conn k : ConnId) (x : FrameReader) (s : Session) :
    (r.withReader conn x).setSession k (s.reread conn x k) =
      (r.setSession k s).withReader conn x := by
  refine congrArg (fun sessions => { r with sessions }) (List.ext_getElem? fun n => ?_)
  simp only [withReader, setSession, List.getElem?_set, List.getElem?_modify, List.length_modify]
  by_cases self : k = n
  · subst self
    by_cases bound : k < r.sessions.length <;> simp [bound, Session.reread]
  · simp [self]

/-- What is done with a session does not depend on its reader and leaves it as it is. -/
def Blind (f : Session → Option Session) : Prop :=
  ∀ s x, f { s with reader := x } = (f s).map fun s => { s with reader := x }

theorem updateSession_withReader {f : Session → Option Session} (blind : k = conn → Blind f) :
    (r.withReader conn x).updateSession k f =
      (r.updateSession k f).map (·.withReader conn x) := by
  have commutes : ∀ s, f (s.reread conn x k) = (f s).map (Session.reread conn x k) := by
    intro s
    by_cases self : k = conn
    · subst self
      have whole : Session.reread k x k = fun s => { s with reader := x } :=
        funext fun s => if_pos rfl
      rw [whole]
      exact blind rfl s x
    · rw [Session.reread_eq_id self, Option.map_id]
      rfl
  rw [updateSession, updateSession, session?_withReader]
  cases found : r.session? k with
  | none => rfl
  | some s =>
    simp only [Option.map_some, Option.bind_eq_bind, Option.bind_some, commutes]
    cases changed : f s with
    | none => rfl
    | some s' => exact congrArg some (setSession_withReader r conn k x s')

theorem updateWriter_withReader {f : Writer → Connection → Option (Writer × Connection)} :
    (r.withReader conn x).updateWriter k f = (r.updateWriter k f).map (·.withReader conn x) := by
  rw [updateWriter, updateWriter, session?_withReader]
  cases found : r.session? k with
  | none => rfl
  | some s =>
    simp only [Option.map_some, Option.bind_eq_bind, Option.bind_some, Session.reread_writer,
      connection?_withReader]
    cases connected : r.connection? k with
    | none => rfl
    | some c =>
      simp only [Option.bind_some]
      cases changed : f s.writer c with
      | none => rfl
      | some p =>
        have same := setSession_withReader r conn k x { s with writer := p.1 }
        rw [← Session.reread_with_writer] at same
        exact congrArg (fun next : Relay => some { next with
          exchange := r.exchange.modify k fun _ => p.2 }) same

theorem posting?_withReader :
    (r.withReader conn x).posting? k target =
      (r.posting? k target).map fun (s, d, c) => (s.reread conn x k, d, c) := by
  rw [posting?, posting?, session?_withReader]
  cases found : r.session? k with
  | none => rfl
  | some s =>
    simp only [Option.map_some, Option.bind_eq_bind, Option.bind_some,
      Session.reread_activity, connection?_withReader]
    cases connected : r.connection? target with
    | none => rfl
    | some c =>
      simp only [Option.bind_some]
      split
      · split <;> rfl
      · rfl

theorem setPosted_withReader (r : Relay) (s : Session) (d : Dispatch) :
    (r.withReader conn x).setPosted k (s.reread conn x k) d target =
      (r.setPosted k s d target).withReader conn x := by
  rw [setPosted, Session.reread_with_activity, setSession_withReader]
  rfl

theorem modify_concat {α : Type} {l : List α} {n : Nat} (bound : n < l.length) (f : α → α) (a : α) :
    (l ++ [a]).modify n f = l.modify n f ++ [a] := by
  apply List.ext_getElem?
  intro k
  rcases Nat.lt_or_ge k l.length with before | after
  · have within : k < (l.modify n f).length := by
      rw [List.length_modify]
      exact before
    rw [List.getElem?_modify, List.getElem?_append_left before, List.getElem?_append_left within,
      List.getElem?_modify]
  · have other : n ≠ k := Nat.ne_of_lt (Nat.lt_of_lt_of_le bound after)
    simp [List.getElem?_append_right, after, other]

theorem accept_withReader (known : conn < r.sessions.length) (peer : Address) :
    (r.withReader conn x).accept peer = (r.accept peer).withReader conn x := by
  by_cases usable : Outbound.isUsableCapacity r.limits.outboundCapacity
  · simp only [accept, withReader, usable, if_true, modify_concat known]
  · simp only [accept, withReader, usable, if_false, modify_concat known, Bool.false_eq_true]

theorem register?_withReader :
    (r.withReader conn x).register? k = (r.register? k).map (·.withReader conn x) := by
  rw [register?, register?, session?_withReader]
  cases found : r.session? k with
  | none => rfl
  | some s =>
    simp only [Option.map_some, Option.bind_eq_bind, Option.bind_some, Session.reread_activity,
      exchange_withReader]
    split
    next identity activity =>
      cases entered : r.exchange.register identity k with
      | mk result exchange =>
        cases result with
        | ok _ =>
          simp only [Option.map_some, Session.reread_with_identity, setSession_withReader]
          rfl
        | error e =>
          simp only [Option.map_some, Session.reread_with_activity, setSession_withReader]
    next => rfl

theorem blind_of_activity (a a' : Activity) :
    Blind fun s => if s.activity = a then some { s with activity := a' } else none := by
  intro s x
  dsimp only
  split <;> rfl

theorem all_isGone_withReader (r : Relay) :
    (r.withReader conn x).sessions.all Session.isGone = r.sessions.all Session.isGone := by
  have same : (r.withReader conn x).sessions.map Session.isGone =
      r.sessions.map Session.isGone := by
    apply List.ext_getElem?
    intro k
    rw [List.getElem?_map, List.getElem?_map]
    change ((r.withReader conn x).session? k).map _ = (r.session? k).map _
    rw [session?_withReader, Option.map_map]
    congr 1
    funext s
    simp [Session.isGone]
  have whole := congrArg (fun gone => gone.all id) same
  rw [List.all_map, List.all_map] at whole
  exact whole

/-- A step that neither brings something to a reader nor reads is blind to what the reader holds. -/
theorem step_withReader (known : conn < r.sessions.length) (other : step.feeds conn = false)
    (noRead : step ≠ .read conn) :
    (r.withReader conn x).step step = (r.step step).map (·.withReader conn x) := by
  cases step with
  | accept peer =>
    simp only [Relay.step, accept_withReader known, Option.map_if]
    rfl
  | arrive c _ | finish c =>
    have differs : c ≠ conn := of_decide_eq_false other
    exact updateSession_withReader fun same => absurd same differs
  | read c =>
    have differs : c ≠ conn := fun same => noRead (congrArg Step.read same)
    exact updateSession_withReader fun same => absurd same differs
  | register c => exact register?_withReader
  | join c =>
    refine updateSession_withReader fun _ s x => ?_
    dsimp only
    split <;> rfl
  | route c =>
    refine updateSession_withReader fun _ s x => ?_
    dsimp only
    split
    · split <;> rfl
    · rfl
  | enqueue c target =>
    simp only [Relay.step, posting?_withReader]
    cases r.posting? c target with
    | none => rfl
    | some p =>
      obtain ⟨s, d, q⟩ := p
      simp only [Option.map_some, Option.bind_eq_bind, Option.bind_some, setPosted_withReader]
      cases q.send d.frame with
      | mk result c => cases result <;> rfl
  | refuse c target | expire c target =>
    simp only [Relay.step, posting?_withReader]
    cases r.posting? c target with
    | none => rfl
    | some p =>
      obtain ⟨s, d, q⟩ := p
      simp only [Option.map_some, Option.bind_eq_bind, Option.bind_some, setPosted_withReader]
      split <;> rfl
  | notice c =>
    simp only [Relay.step, connection?_withReader]
    cases r.connection? c with
    | none => rfl
    | some q =>
      refine updateSession_withReader fun _ s x => ?_
      dsimp only
      split <;> rfl
  | hangUp c | unregister c =>
    simp only [Relay.step]
    rw [updateSession_withReader fun _ => blind_of_activity _ _]
    cases r.updateSession c _ <;> rfl
  | take c | stopWriter c | failWriter c => exact updateWriter_withReader
  | write c n =>
    simp only [Relay.step]
    exact updateWriter_withReader
  | requestShutdown => rfl
  | forceClose c | stopAccepting | clear =>
    simp only [Relay.step, Option.map_if]
    rfl
  | stop =>
    simp only [Relay.step, all_isGone_withReader, Option.map_if]
    rfl

theorem withReader_withReader (r : Relay) (conn : ConnId) (x y : FrameReader) :
    (r.withReader conn y).withReader conn x = r.withReader conn x := by
  rw [withReader, withReader, List.modify_modify_eq]
  rfl

theorem setSession_with_reader (found : r.session? conn = some s) (y : FrameReader) :
    r.setSession conn { s with reader := y } = r.withReader conn y := by
  obtain ⟨bound, same⟩ := List.getElem?_eq_some_iff.mp found
  refine congrArg (fun sessions => { r with sessions }) (List.ext_getElem? fun n => ?_)
  rw [List.getElem?_set, List.getElem?_modify]
  by_cases self : conn = n
  · subst self
    simp [bound, same]
  · simp [self]

theorem withReader_self (found : r.session? conn = some s) : r.withReader conn s.reader = r := by
  obtain ⟨bound, rfl⟩ := List.getElem?_eq_some_iff.mp found
  rw [← setSession_with_reader found]
  exact congrArg (fun sessions => { r with sessions }) (List.set_getElem_self bound)

/-- What a step that feeds a reader does. -/
theorem feed_cases (feeds : step.feeds conn) (taken : r.step step = some r') :
    ∃ s y, r.session? conn = some s ∧ s.reader.isOpen = true ∧ r' = r.withReader conn y ∧
      ((∃ read, step = .arrive conn read ∧ y = s.reader.push read) ∨
        step = .finish conn ∧ y = s.reader.close) := by
  cases step with
  | arrive c read =>
    obtain rfl : c = conn := of_decide_eq_true feeds
    obtain ⟨s, s', found, changed, rfl⟩ := updateSession_cases taken
    split at changed
    next isOpen =>
      cases changed
      exact ⟨s, _, found, isOpen, setSession_with_reader found _, .inl ⟨read, rfl, rfl⟩⟩
    next => cases changed
  | finish c =>
    obtain rfl : c = conn := of_decide_eq_true feeds
    obtain ⟨s, s', found, changed, rfl⟩ := updateSession_cases taken
    split at changed
    next isOpen =>
      cases changed
      exact ⟨s, _, found, isOpen, setSession_with_reader found _, .inr ⟨rfl, rfl⟩⟩
    next => cases changed
  | _ => cases feeds

/-- A session reads by taking what the reader gives, unless the reader waits. -/
theorem read_cases (taken : r.step (.read conn) = some r') :
    ∃ s, r.session? conn = some s ∧ s.activity = .reading ∧ s.reader.next.1 ≠ .waiting ∧
      r' = r.setSession conn
        { s with activity := s.actOnReading s.reader.next.1, reader := s.reader.next.2 } := by
  obtain ⟨s, s', found, changed, rfl⟩ := updateSession_cases taken
  obtain ⟨reading, arrived, rfl⟩ := Session.read?_eq_some_iff.mp changed
  exact ⟨s, found, reading, arrived, rfl⟩

theorem step_read (found : r.session? conn = some s) (reading : s.activity = .reading)
    (arrived : s.reader.next.1 ≠ .waiting) :
    r.step (.read conn) = some (r.setSession conn
      { s with activity := s.actOnReading s.reader.next.1, reader := s.reader.next.2 }) := by
  have changed := Session.read?_eq_some_iff.mpr ⟨reading, arrived, rfl⟩
  simp [Relay.step, updateSession, found, changed]

theorem setSession_setSession (r : Relay) (conn : ConnId) (s s' : Session) :
    (r.setSession conn s).setSession conn s' = r.setSession conn s' := by
  rw [setSession, setSession, List.set_set]
  rfl

theorem step_arrive (found : r.session? conn = some s) (isOpen : s.reader.isOpen = true)
    (piece : Read) :
    r.step (.arrive conn piece) = some (r.withReader conn (s.reader.push piece)) := by
  simp [Relay.step, updateSession, found, isOpen, setSession_with_reader]

theorem step_finish (found : r.session? conn = some s) (isOpen : s.reader.isOpen = true) :
    r.step (.finish conn) = some (r.withReader conn s.reader.close) := by
  simp [Relay.step, updateSession, found, isOpen, setSession_with_reader]

/-- A session goes on in the same way with another reader, if that one gives the same. -/
theorem step_read_withReader (found : r.session? conn = some s) (reading : s.activity = .reading)
    (arrived : x.next.1 ≠ .waiting) {a : Activity} (same : s.actOnReading x.next.1 = a) :
    (r.withReader conn x).step (.read conn) =
      some ((r.setSession conn { s with activity := a, reader := y }).withReader conn
        x.next.2) := by
  have now : (r.withReader conn x).session? conn = some { s with reader := x } := by
    rw [← setSession_with_reader found]
    exact session?_setSession_self found
  rw [step_read now reading arrived, ← setSession_with_reader found, setSession_setSession,
    ← setSession_with_reader (session?_setSession_self found), setSession_setSession, ← same]
  rfl

/-- No step changes the limits, and there is one more session after each connection that is
accepted. -/
theorem step_keeps (taken : r.step step = some r') :
    r'.limits = r.limits ∧
      r'.sessions.length = r.sessions.length + if step.isAccept then 1 else 0 := by
  cases step with
  | accept peer =>
    simp only [Relay.step] at taken
    split at taken <;> cases taken
    rw [accept]
    split <;> exact ⟨rfl, List.length_append⟩
  | arrive conn _ | finish conn | read conn | join conn | route conn =>
    obtain ⟨s, s', -, -, rfl⟩ := updateSession_cases taken
    exact ⟨rfl, List.length_set⟩
  | register conn =>
    obtain ⟨s, i, -, -, ⟨G, -, rfl⟩ | ⟨e, -, rfl⟩⟩ := register_cases taken
    · exact ⟨rfl, List.length_set⟩
    · exact ⟨rfl, List.length_set⟩
  | enqueue conn target =>
    obtain ⟨s, d, c, c', -, -, rfl⟩ := enqueue_cases taken
    exact ⟨rfl, List.length_set⟩
  | refuse conn target =>
    obtain ⟨s, d, c, -, rfl⟩ := missed_cases (.inl taken)
    exact ⟨rfl, List.length_set⟩
  | expire conn target =>
    obtain ⟨s, d, c, -, rfl⟩ := missed_cases (.inr taken)
    exact ⟨rfl, List.length_set⟩
  | notice conn =>
    obtain ⟨s, -, -, rfl⟩ := notice_cases taken
    exact ⟨rfl, List.length_set⟩
  | hangUp conn =>
    obtain ⟨s, -, -, rfl⟩ := hangUp_cases taken
    exact ⟨rfl, List.length_set⟩
  | unregister conn =>
    obtain ⟨s, -, -, rfl⟩ := unregister_cases taken
    exact ⟨rfl, List.length_set⟩
  | take conn | stopWriter conn | failWriter conn =>
    obtain ⟨s, c, w, c', -, -, -, rfl⟩ := updateWriter_cases taken
    exact ⟨rfl, List.length_set⟩
  | write conn n =>
    simp only [Relay.step] at taken
    obtain ⟨s, c, w, c', -, -, -, rfl⟩ := updateWriter_cases taken
    exact ⟨rfl, List.length_set⟩
  | requestShutdown =>
    cases taken
    exact ⟨rfl, rfl⟩
  | _ =>
    simp only [Relay.step] at taken
    split at taken <;> cases taken
    exact ⟨rfl, rfl⟩

/-- A step that neither feeds the reader of a connection nor reads leaves it as it is. -/
theorem reader_of_step (found : r.session? conn = some s) (other : step.feeds conn = false)
    (noRead : step ≠ .read conn) (taken : r.step step = some r') :
    ∃ s', r'.session? conn = some s' ∧ s'.reader = s.reader := by
  have known : conn < r.sessions.length := (List.getElem?_eq_some_iff.mp found).1
  have blind := step_withReader (x := s.reader) known other noRead
  rw [withReader_self found, taken, Option.map_some, Option.some.injEq] at blind
  have bound : conn < r'.sessions.length := by
    rw [(step_keeps taken).2]
    exact Nat.lt_add_right _ known
  have there : r'.session? conn = some r'.sessions[conn] := List.getElem?_eq_getElem bound
  refine ⟨_, there, ?_⟩
  have now := session?_withReader r' conn s.reader conn
  rw [← blind, there, Option.map_some] at now
  exact (congrArg Session.reader (Option.some.inj now)).trans Session.reread_reader

/-- The session of a connection has come to its end, and reads no more. -/
def Spent (r : Relay) (conn : ConnId) : Prop :=
  ∃ st, r.standing? conn = some st ∧ st.activity.isSpent

theorem not_spent_of_reading (found : r.session? conn = some s) (reading : s.activity = .reading) :
    ¬ Spent r conn := by
  rintro ⟨st, standing, spent⟩
  rw [standing?_of_session? found] at standing
  cases standing
  rw [Session.standing, reading] at spent
  cases spent

theorem spent_setSession (found : r.session? conn = some s) (s' : Session)
    (spent : s'.activity.isSpent) : Spent (r.setSession conn s') conn :=
  ⟨s'.standing, standing?_of_session? (session?_setSession_self found), spent⟩

theorem spent_of_step (spent : Spent r conn) (taken : r.step step = some r') : Spent r' conn := by
  obtain ⟨st, standing, spent⟩ := spent
  by_cases clears : step = .clear
  · subst clears
    exact ⟨st, (standing?_of_clear taken conn).trans standing, spent⟩
  · have move : Move [] r r' (r.event? [] step) := step_moves taken clears
    cases move with
    | quiet silent registry same => exact ⟨st, (same conn).trans standing, spent⟩
    | @arrival c a silent registry unknown idle arrived others =>
      have other : conn ≠ c := by
        rintro rfl
        rw [unknown] at standing
        cases standing
      exact ⟨st, (others conn other).trans standing, spent⟩
    | @turn c before after there turn now others =>
      by_cases self : conn = c
      · subst self
        cases there.symm.trans standing
        exact ⟨after, now, turn.spent spent⟩
      · exact ⟨st, (others conn self).trans standing, spent⟩

end Relay

end Mailroom
