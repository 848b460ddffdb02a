import Mailroom.Proofs.Relay.Turn
import Mailroom.Proofs.Routing

/-!
# The course of one session

The turns of one session, one after the other, whatever the others do meanwhile: only the registry
that a turn finds is not of the session's own making. What the session has brought about so far and
how it stands are all that its next turn depends on. Here is what the two have to do with each
other, in whatever registries the turns are taken.
-/

namespace Mailroom

namespace Event

/-- The connection whose session brings an event about. -/
def conn : Event → ConnId
  | .read conn _ _ _ => conn
  | .registered conn _ => conn
  | .addressed conn _ _ => conn
  | .queued conn _ _ _ => conn
  | .missed conn _ _ => conn
  | .unregistered conn => conn

/-- The number of the frame that an event is about, or zero. -/
def number : Event → Nat
  | .read _ n _ _ => n
  | .registered _ _ => 0
  | .addressed _ n _ => n
  | .queued _ n _ _ => n
  | .missed _ n _ => n
  | .unregistered _ => 0

end Event

namespace History

/-- What one session has brought about. -/
def ofConn (h : History) (conn : ConnId) : History := h.filter fun e => e.conn = conn

variable {h : History} {conn target : ConnId} {e : Event} {n : Nat}

theorem mem_ofConn : e ∈ h.ofConn conn ↔ e ∈ h ∧ e.conn = conn := by simp [ofConn]

theorem ofConn_append (h h' : History) (conn : ConnId) :
    (h ++ h').ofConn conn = h.ofConn conn ++ h'.ofConn conn := by simp [ofConn]

theorem reads_append (h h' : History) (conn : ConnId) :
    reads (h ++ h') conn = reads h conn + reads h' conn := by simp [reads]

theorem reads_ofConn (h : History) (conn : ConnId) : reads (h.ofConn conn) conn = reads h conn := by
  rw [reads, ofConn, List.countP_filter, reads]
  congr 1
  funext e
  cases e with
  | read c _ _ _ => by_cases same : c = conn <;> simp [Event.isReadBy, Event.conn, same]
  | _ => rfl

/-- What is gathered from the events of one session alone. -/
theorem filterMap_ofConn {α : Type} {f : Event → Option α} (own : ∀ e, e.conn ≠ conn → f e = none) :
    (h.ofConn conn).filterMap f = h.filterMap f := by
  rw [ofConn, List.filterMap_filter]
  congr 1
  funext e
  by_cases same : e.conn = conn
  · simp [same]
  · simp [same, own e same]

theorem identities_ofConn : identities (h.ofConn conn) conn = identities h conn :=
  filterMap_ofConn fun e other => by
    cases e <;> simp_all [Event.identityOn?, Event.conn]

theorem attempts_ofConn : attempts (h.ofConn conn) conn n = attempts h conn n :=
  filterMap_ofConn fun e other => by
    cases e <;> simp_all [Event.attempt?, Event.conn]

theorem numbersFor_ofConn : numbersFor (h.ofConn conn) conn target = numbersFor h conn target :=
  filterMap_ofConn fun e other => by
    cases e <;> simp_all [Event.numberFor?, Event.conn]

end History

open History

/-- What a session can have brought about when it stands in a certain way. -/
inductive Course (conn : ConnId) : History → Standing → Prop
  | arrives {a : Activity} (idle : a = .reading ∨ a = .gone) : Course conn [] ⟨none, a⟩
  | turns {own : History} {st st' : Standing} {e? : Option Event} {G G' : Registry}
      (course : Course conn own st) (turn : Turn G conn (reads own conn) st e? st' G') :
      Course conn (own ++ e?.toList) st'

variable {G G' : Registry} {conn : ConnId} {n : Nat} {st st' : Standing} {e? : Option Event}
  {own : History} {i? : Option Identity} {f : Inbound}

theorem Turn.conn_eq (turn : Turn G conn n st e? st' G') : ∀ e ∈ e?.toList, e.conn = conn := by
  cases turn <;> simp [Event.conn]

theorem Turn.number_le (turn : Turn G conn n st e? st' G') :
    ∀ e ∈ e?.toList, e.number ≤ n + reads e?.toList conn := by
  cases turn <;> simp [Event.number, reads, Event.isReadBy]

theorem Turn.number_of_read {m : Nat} (turn : Turn G conn n st e? st' G')
    (made : .read conn m i? f ∈ e?.toList) : m = n + 1 := by
  cases turn <;> simp at made <;> exact made.1

theorem Turn.identity_of_read {m : Nat} (turn : Turn G conn n st e? st' G')
    (made : .read conn m i? f ∈ e?.toList) : st.identity? = i? := by
  cases turn <;> simp at made <;> exact made.2.1.symm

namespace Relay

variable {limits : Limits} {h : History} {r r' : Relay}

/-- A session has gone its own course. -/
def OnCourse (h : History) (r : Relay) (conn : ConnId) : Prop :=
  (r.standing? conn = none → h.ofConn conn = []) ∧
    ∀ st, r.standing? conn = some st → Course conn (h.ofConn conn) st

theorem OnCourse.of_move (onCourse : OnCourse h r conn) (move : Move h r r' e?) :
    OnCourse (h ++ e?.toList) r' conn := by
  unfold OnCourse
  cases move with
  | quiet silent registry standing =>
    rw [silent, standing conn, Option.toList_none, List.append_nil]
    exact onCourse
  | @arrival c a silent registry unknown idle arrived others =>
    rw [silent, Option.toList_none, List.append_nil]
    by_cases self : conn = c
    · subst self
      rw [onCourse.1 unknown, arrived]
      refine ⟨fun _ => rfl, fun st found => ?_⟩
      cases found
      exact .arrives idle
    · rw [others conn self]
      exact onCourse
  | @turn c st st' before turn after others =>
    rw [ofConn_append]
    by_cases self : conn = c
    · subst self
      have whole : History.ofConn e?.toList conn = e?.toList :=
        List.filter_eq_self.mpr fun e made => decide_eq_true (turn.conn_eq e made)
      rw [whole, after]
      refine ⟨nofun, fun now found => ?_⟩
      cases found
      rw [← reads_ofConn] at turn
      exact .turns (onCourse.2 st before) turn
    · have nothing : History.ofConn e?.toList conn = [] := by
        refine List.filter_eq_nil_iff.mpr fun e made => ?_
        rw [turn.conn_eq e made, decide_eq_true_iff]
        exact Ne.symm self
      rw [nothing, List.append_nil, others conn self]
      exact onCourse

theorem onCourse_fresh (limits : Limits) (conn : ConnId) : OnCourse [] (.fresh limits) conn :=
  ⟨fun _ => rfl, fun st found => by cases found⟩

theorem OnCourse.of_step {step : Step} (onCourse : OnCourse h r conn)
    (taken : r.step step = some r') : OnCourse (h ++ (r.event? h step).toList) r' conn := by
  by_cases clears : step = .clear
  · subst clears
    have silent : r.event? h .clear = none := rfl
    rw [silent, Option.toList_none, List.append_nil, OnCourse, standing?_of_clear taken]
    exact onCourse
  · exact onCourse.of_move (step_moves taken clears)

/-- Every session goes its own course, whether or not the registry is cleared. -/
theorem onCourse_of_record {steps : List Step} {h' : History}
    (recorded : record h r steps = some (h', r')) (onCourse : OnCourse h r conn) :
    OnCourse h' r' conn := by
  induction steps generalizing h r with
  | nil =>
    cases recorded
    exact onCourse
  | cons step steps ih =>
    obtain ⟨next, taken, onward⟩ := Option.bind_eq_some_iff.mp recorded
    exact ih onward (onCourse.of_step taken)

/-- Every session goes its own course. -/
theorem course_of_reaches (reached : Reaches limits h r) (conn : ConnId) :
    (r.standing? conn = none → h.ofConn conn = []) ∧
      ∀ st, r.standing? conn = some st → Course conn (h.ofConn conn) st := by
  induction reached with
  | fresh => exact onCourse_fresh limits conn
  | step reached notClear taken ih => exact OnCourse.of_move ih (step_moves taken notClear)

end Relay

/-- It was not yet found out where a frame goes. -/
def Unaddressed (own : History) (conn : ConnId) (n : Nat) : Prop := ∀ G, .addressed conn n G ∉ own

/-- A session that works on no frame. -/
def Activity.isIdle : Activity → Bool
  | .reading | .closing | .leaving | .gone => true
  | _ => false

/-- What is known of the frame that a session works on, which is the `n`-th it has read. -/
inductive InHand (own : History) (conn : ConnId) (n : Nat) : Standing → Prop
  | idle {i? : Option Identity} {a : Activity} (idle : a.isIdle) : InHand own conn n ⟨i?, a⟩
  | registering {i : Identity} {f : Inbound} (read : .read conn n none f ∈ own)
      (registration : f.envelope = .registration i) (named : i.id ≠ "")
      (unaddressed : Unaddressed own conn n) : InHand own conn n ⟨none, .registering i⟩
  | joining {i : Identity} {f : Inbound} (read : .read conn n none f ∈ own)
      (registration : f.envelope = .registration i) (unaddressed : Unaddressed own conn n) :
      InHand own conn n ⟨some i, .joining⟩
  | routing {i : Identity} {f : Inbound} (read : .read conn n (some i) f ∈ own)
      (payload : f.envelope.kind ≠ .registration) (unaddressed : Unaddressed own conn n) :
      InHand own conn n ⟨some i, .routing f⟩
  | posting {i : Identity} {j? : Option Identity} {f : Inbound} {G : Registry} {d : Dispatch}
      (read : .read conn n j? f ∈ own) (addressed : .addressed conn n G ∈ own)
      (frame : d.frame = f.relayed) (honest : f.envelope.senderId = i.id) :
      InHand own conn n ⟨some i, .posting d⟩

theorem InHand.ofDispatch {i : Identity} {j? : Option Identity} {d : Dispatch}
    (read : .read conn n j? f ∈ own) (addressed : .addressed conn n G ∈ own)
    (frame : d.frame = f.relayed) (honest : f.envelope.senderId = i.id) :
    InHand own conn n ⟨some i, .ofDispatch d⟩ := by
  unfold Activity.ofDispatch
  split
  · exact .idle rfl
  · exact .posting read addressed frame honest

/-- A session that is done with a target still works on the same frame. -/
theorem InHand.posted {e : Event} {d : Dispatch} {target : ConnId}
    (hand : InHand own conn n ⟨i?, .posting d⟩) :
    InHand (own ++ [e]) conn n
      ⟨i?, .ofDispatch { d with targets := d.targets.erase target }⟩ := by
  cases hand with
  | idle idle => cases idle
  | posting read addressed frame honest =>
    exact .ofDispatch (List.mem_append_left _ read) (List.mem_append_left _ addressed) frame honest

theorem reads_concat (own : History) (e : Event) (conn : ConnId) :
    reads (own ++ [e]) conn = reads own conn + if e.isReadBy conn then 1 else 0 := by
  rw [reads_append]
  simp [reads, List.countP_singleton]

theorem reads_concat_read (own : History) :
    reads (own ++ [.read conn n i? f]) conn = reads own conn + 1 := by
  simp [reads_concat, Event.isReadBy]

theorem reads_concat_of_not_read {e : Event} (other : e.isReadBy conn = false) (own : History) :
    reads (own ++ [e]) conn = reads own conn := by
  simp [reads_concat, other]

/-- Nothing is found out about a frame that is only read now. -/
theorem unaddressed_concat_read (le : ∀ e ∈ own, e.number ≤ n) :
    Unaddressed (own ++ [.read conn (n + 1) i? f]) conn (n + 1) := by
  intro G addressed
  rcases List.mem_append.mp addressed with before | now
  · have : n + 1 ≤ n := le _ before
    omega
  · cases List.mem_singleton.mp now

namespace Course

theorem number_le (course : Course conn own st) : ∀ e ∈ own, e.number ≤ reads own conn := by
  induction course with
  | arrives idle =>
    intro e made
    cases made
  | turns course turn ih =>
    intro e made
    rw [reads_append]
    rcases List.mem_append.mp made with before | now
    · exact Nat.le_add_right_of_le (ih e before)
    · exact turn.number_le e now

theorem inHand (course : Course conn own st) : InHand own conn (reads own conn) st := by
  induction course with
  | arrives idle => rcases idle with rfl | rfl <;> exact .idle rfl
  | @turns own st st' e? G G' course turn hand =>
    have last : ∀ e : Event, e ∈ own ++ [e] := fun e => List.mem_append_right _ List.mem_cons_self
    cases turn with
    | applies decoded registration named =>
      rw [Option.toList_some, reads_concat_read]
      exact .registering (last _) registration named (unaddressed_concat_read course.number_le)
    | ignores => exact .idle rfl
    | accepts decoded payload =>
      rw [Option.toList_some, reads_concat_read]
      exact .routing (last _) payload (unaddressed_concat_read course.number_le)
    | ends => exact .idle rfl
    | registers free =>
      rw [Option.toList_some, reads_concat_of_not_read rfl]
      cases hand with
      | idle idle => cases idle
      | registering read registration named unaddressed =>
        refine .joining (List.mem_append_left _ read) registration ?_
        intro G addressed
        rcases List.mem_append.mp addressed with before | now
        · exact unaddressed G before
        · cases List.mem_singleton.mp now
    | refused => exact .idle rfl
    | joins =>
      rw [Option.toList_some, reads_concat_of_not_read rfl]
      cases hand with
      | idle idle => cases idle
      | joining read registration unaddressed =>
        rw [Registry.dispatchJoin_eq registration]
        refine .ofDispatch (List.mem_append_left _ read) (last _) rfl ?_
        rw [registration, Envelope.senderId]
    | routes dispatched =>
      rw [Option.toList_some, reads_concat_of_not_read rfl]
      cases hand with
      | idle idle => cases idle
      | routing read payload unaddressed =>
        obtain ⟨honest, rfl⟩ := Registry.of_dispatch_eq_ok dispatched
        exact .ofDispatch (List.mem_append_left _ read) (last _) rfl honest
    | drops => exact .idle rfl
    | queues due =>
      rw [Option.toList_some, reads_concat_of_not_read rfl]
      exact hand.posted
    | misses due =>
      rw [Option.toList_some, reads_concat_of_not_read rfl]
      exact hand.posted
    | hangsUp => exact .idle rfl
    | leaves => exact .idle rfl

/-- A session has registered once at most, as the identity that it has. -/
theorem identities_eq (course : Course conn own st) :
    identities own conn = st.identity?.toList := by
  induction course with
  | arrives idle => rfl
  | @turns own st st' e? G G' course turn ih =>
    rw [identities, List.filterMap_append]
    change identities own conn ++ _ = _
    rw [ih]
    cases turn with
    | registers free =>
      cases course.inHand with
      | idle idle => cases idle
      | registering read registration named unaddressed => simp [Event.identityOn?]
    | _ => simp [Event.identityOn?]

/-- A session that has left is gone. -/
theorem gone_of_unregistered (course : Course conn own st) (left : .unregistered conn ∈ own) :
    st.activity = .gone := by
  induction course with
  | arrives idle => cases left
  | @turns own st st' e? G G' course turn ih =>
    rcases List.mem_append.mp left with before | now
    · have gone := ih before
      cases turn <;> cases gone
    · cases turn <;> simp at now ⊢

/-- A session that has registered is gone only when it has left. -/
theorem unregistered_of_gone {i : Identity} (course : Course conn own st)
    (gone : st.activity = .gone) (known : st.identity? = some i) : .unregistered conn ∈ own := by
  cases course with
  | arrives idle => cases known
  | turns course turn =>
    have stays : ∀ d, Activity.ofDispatch d ≠ .gone := by
      intro d
      unfold Activity.ofDispatch
      split <;> exact nofun
    cases turn with
    | leaves => simp
    | joins => exact absurd gone (stays _)
    | routes dispatched => exact absurd gone (stays _)
    | queues due => exact absurd gone (stays _)
    | misses due => exact absurd gone (stays _)
    | _ => cases gone

theorem decode_of_read (course : Course conn own st) (read : .read conn n i? f ∈ own) :
    Frame.decode f.raw = .ok f.envelope := by
  induction course with
  | arrives idle => cases read
  | turns course turn ih =>
    rcases List.mem_append.mp read with before | now
    · exact ih before
    · cases turn <;> simp at now <;> (obtain ⟨-, -, rfl⟩ := now; assumption)

/-- No number is given to two frames. -/
theorem read_unique {j? : Option Identity} {g : Inbound} (course : Course conn own st)
    (read : .read conn n i? f ∈ own) (again : .read conn n j? g ∈ own) : i? = j? ∧ f = g := by
  induction course with
  | arrives idle => cases read
  | @turns own st st' e? G G' course turn ih =>
    have old : ∀ {i? f}, .read conn n i? f ∈ own → n ≤ reads own conn :=
      fun read => course.number_le _ read
    rcases List.mem_append.mp read with before | now <;>
      rcases List.mem_append.mp again with before' | now'
    · exact ih before before'
    · have := old before
      have := turn.number_of_read now'
      omega
    · have := old before'
      have := turn.number_of_read now
      omega
    · cases e? with
      | none => cases now
      | some e =>
        rw [Option.toList_some, List.mem_singleton] at now now'
        cases now.trans now'.symm
        exact ⟨rfl, rfl⟩

end Course

namespace Relay

variable {limits : Limits} {h : History} {r : Relay}

theorem course (reached : Reaches limits h r) (found : r.standing? conn = some st) :
    Course conn (h.ofConn conn) st := (course_of_reaches reached conn).2 st found

theorem inHand (reached : Reaches limits h r) (found : r.standing? conn = some st) :
    InHand (h.ofConn conn) conn (reads h conn) st :=
  reads_ofConn h conn ▸ (course reached found).inHand

/-- A connection of which something is known has a session. -/
theorem course_of_mem (conn : ConnId) {e : Event} (reached : Reaches limits h r) (made : e ∈ h)
    (mine : e.conn = conn) :
    ∃ st, r.standing? conn = some st ∧ Course conn (h.ofConn conn) st := by
  cases found : r.standing? conn with
  | some st => exact ⟨st, rfl, course reached found⟩
  | none =>
    have own : e ∈ h.ofConn conn := mem_ofConn.mpr ⟨made, mine⟩
    rw [(course_of_reaches reached conn).1 found] at own
    cases own

/-- Whatever is in a history was brought about by a turn, in a state that the history before it
leads to. -/
theorem turn_of_split (conn : ConnId) {before after : History} {e : Event}
    (reached : Reaches limits h r) (split : h = before ++ e :: after) (mine : e.conn = conn) :
    ∃ r₁ st st' G', Reaches limits before r₁ ∧ r₁.standing? conn = some st ∧
      Turn r₁.registry conn (reads before conn) st (some e) st' G' := by
  obtain ⟨r₁, s, r₂, reached₁, notClear, taken, made⟩ := step_of_reaches reached split
  have move : Move before r₁ r₂ (r₁.event? before s) := step_moves taken notClear
  rw [made] at move
  cases move with
  | quiet silent registry standing => cases silent
  | arrival silent registry unknown idle arrived others => cases silent
  | turn found turn after others =>
    have same := (turn.conn_eq e List.mem_cons_self).symm.trans mine
    subst same
    exact ⟨r₁, _, _, _, reached₁, found, turn⟩

end Relay

end Mailroom
