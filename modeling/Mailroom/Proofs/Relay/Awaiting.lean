import Mailroom.Proofs.Relay.Readers

/-!
# What is read from one connection

A session reads the frames of its client's stream from the beginning of the stream, in their order,
up to the first line that is none; and it reads less if the run does not go that far or the session
ends before. Only a beginning of the stream may have arrived, in pieces of any size and between any
other steps.
-/

namespace Mailroom

open History ByteStream

namespace Event

/-- The frame that is read from a connection. -/
def frameFrom? (conn : ConnId) : Event → Option Inbound
  | .read c _ _ f => if c = conn then some f else none
  | _ => none

end Event

namespace History

/-- The frames that were read from a connection. -/
def readFrom (h : History) (conn : ConnId) : List Inbound := h.filterMap (Event.frameFrom? conn)

theorem readFrom_append (h h' : History) (conn : ConnId) :
    readFrom (h ++ h') conn = readFrom h conn ++ readFrom h' conn := List.filterMap_append

end History

namespace Relay

/-- What arrives from a client in a step. -/
def Step.arrival? (conn : ConnId) : Step → Option Read
  | .arrive c piece => if c = conn then some piece else none
  | _ => none

def arrivals (conn : ConnId) (steps : List Step) : List Read :=
  steps.filterMap (Step.arrival? conn)

/-- What arrives from a client is the beginning of a stream, and all of it if the client sends
nothing more. -/
structure Delivers (conn : ConnId) (sent : List Read) (steps : List Step) : Prop where
  begins : arrivals conn steps <+: sent
  ends : .finish conn ∈ steps → arrivals conn steps = sent

variable {limits : Limits} {h h' : History} {r r' r'' : Relay} {conn : ConnId} {s : Session}
  {step : Step} {steps before after : List Step} {more later sent : List Read} {fs : List Inbound}
  {x : FrameReader}

theorem arrivals_append (conn : ConnId) (steps more : List Step) :
    arrivals conn (steps ++ more) = arrivals conn steps ++ arrivals conn more :=
  List.filterMap_append

theorem arrivals_cons (conn : ConnId) (step : Step) (steps : List Step) :
    arrivals conn (step :: steps) = (step.arrival? conn).toList ++ arrivals conn steps :=
  arrivals_append conn [step] steps

theorem arrival?_of_not_feeds (other : step.feeds conn = false) : step.arrival? conn = none := by
  cases step with
  | arrive c read => exact if_neg (of_decide_eq_false other)
  | _ => rfl

theorem arrivals_of_not_feeds (other : ∀ step ∈ steps, step.feeds conn = false) :
    arrivals conn steps = [] :=
  List.filterMap_eq_nil_iff.mpr fun step mem => arrival?_of_not_feeds (other step mem)

theorem run_keeps (ran : r.run steps = some r') :
    r'.limits = r.limits ∧
      r'.sessions.length = r.sessions.length + steps.countP Step.isAccept := by
  induction steps generalizing r with
  | nil =>
    cases ran
    exact ⟨rfl, rfl⟩
  | cons step steps ih =>
    obtain ⟨next, taken, ran⟩ := Option.bind_eq_some_iff.mp ran
    obtain ⟨limits, length⟩ := step_keeps taken
    obtain ⟨limits', length'⟩ := ih ran
    refine ⟨limits'.trans limits, ?_⟩
    rw [length', length, List.countP_cons, Nat.add_assoc, Nat.add_comm (ite _ _ _)]

/-- There are as many sessions as connections were accepted. -/
theorem length_of_run (ran : (fresh limits).run steps = some r) :
    r.sessions.length = steps.countP Step.isAccept :=
  (run_keeps ran).2.trans (Nat.zero_add _)

/-- Nothing arrives from a client who sends nothing more. -/
theorem arrivals_of_closed (found : r.session? conn = some s) (closed : s.reader.isOpen = false)
    (ran : r.run steps = some r') : arrivals conn steps = [] := by
  induction steps generalizing r s with
  | nil => rfl
  | cons step steps ih =>
    obtain ⟨next, taken, ran⟩ := Option.bind_eq_some_iff.mp ran
    by_cases feeds : step.feeds conn
    · obtain ⟨s', y, found', isOpen, -⟩ := feed_cases feeds taken
      cases found.symm.trans found'
      rw [closed] at isOpen
      cases isOpen
    · rw [Bool.not_eq_true] at feeds
      rw [arrivals_cons, arrival?_of_not_feeds feeds, Option.toList_none, List.nil_append]
      by_cases reads : step = .read conn
      · subst reads
        obtain ⟨s', found', -, -, rfl⟩ := read_cases taken
        cases found.symm.trans found'
        exact ih (session?_setSession_self found) ((FrameReader.isOpen_next _).trans closed) ran
      · obtain ⟨s', found', same⟩ := reader_of_step found feeds reads taken
        exact ih found' (same ▸ closed) ran

/-- Only the step that reads a frame shows that one is read. -/
theorem readFrom_of_other (noRead : step ≠ .read conn) :
    readFrom (r.event? h step).toList conn = [] := by
  cases made : r.event? h step with
  | none => rfl
  | some e =>
    cases e with
    | read c n i? f =>
      have other : c ≠ conn := by
        rintro rfl
        cases shows_of_event? made
        exact noRead rfl
      simp [readFrom, Event.frameFrom?, other]
    | _ => rfl

/-- What a reading session shows is the frame that its reader gives. -/
theorem readFrom_of_read (found : r.session? conn = some s) :
    readFrom (r.event? h (.read conn)).toList conn =
      match s.reader.next.1 with
      | .frame f => [f]
      | _ => [] := by
  simp only [event?, found, Option.bind_eq_bind, Option.bind_some]
  split
  next f x given => simp [given, readFrom, Event.frameFrom?]
  next other =>
    split
    next f given => exact (other f s.reader.next.2 (Prod.ext given rfl)).elim
    next => rfl

/-- These are the frames that a session is still to read if `more` arrives. A session can also come
to its end because closing was requested, and then nothing is claimed. -/
def Awaits (r : Relay) (conn : ConnId) (more : List Read) (fs : List Inbound) : Prop :=
  Spent r conn ∨ ∃ s, r.session? conn = some s ∧ s.reader.Expects more fs

theorem Awaits.known (awaits : Awaits r conn more fs) : conn < r.sessions.length := by
  rcases awaits with ⟨st, standing, -⟩ | ⟨s, found, -⟩
  · obtain ⟨s, found, -⟩ := Option.map_eq_some_iff.mp standing
    exact (List.getElem?_eq_some_iff.mp found).1
  · exact (List.getElem?_eq_some_iff.mp found).1

/-- A session that reads is not at its end. -/
theorem Awaits.of_read (awaits : Awaits r conn more fs) (taken : r.step (.read conn) = some r') :
    ∃ s, r.session? conn = some s ∧ s.activity = .reading ∧ s.reader.next.1 ≠ .waiting ∧
      s.reader.Expects more fs ∧ r' = r.setSession conn
        { s with activity := s.actOnReading s.reader.next.1, reader := s.reader.next.2 } := by
  obtain ⟨s, found, reading, arrived, rfl⟩ := read_cases taken
  rcases awaits with spent | ⟨s', found', expects⟩
  · exact absurd spent (not_spent_of_reading found reading)
  · cases found.symm.trans found'
    exact ⟨s, found, reading, arrived, expects, rfl⟩

theorem Awaits.of_feed (awaits : Awaits r conn ((step.arrival? conn).toList ++ more) fs)
    (feeds : step.feeds conn) (taken : r.step step = some r')
    (ends : step = .finish conn → more = []) : Awaits r' conn more fs := by
  rcases awaits with spent | ⟨s, found, expects⟩
  · exact .inl (spent_of_step spent taken)
  · obtain ⟨s', y, found', isOpen, rfl, ⟨read, rfl, rfl⟩ | ⟨rfl, rfl⟩⟩ := feed_cases feeds taken
    · cases found.symm.trans found'
      have first : Step.arrival? conn (.arrive conn read) = some read := if_pos rfl
      rw [first] at expects
      rw [← setSession_with_reader found]
      exact .inr ⟨_, session?_setSession_self found, expects.push⟩
    · cases found.symm.trans found'
      rw [ends rfl] at expects ⊢
      rw [← setSession_with_reader found]
      exact .inr ⟨_, session?_setSession_self found, expects.close⟩

theorem Awaits.of_other (awaits : Awaits r conn more fs) (other : step.feeds conn = false)
    (noRead : step ≠ .read conn) (taken : r.step step = some r') : Awaits r' conn more fs := by
  rcases awaits with spent | ⟨s, found, expects⟩
  · exact .inl (spent_of_step spent taken)
  · obtain ⟨s', found', same⟩ := reader_of_step found other noRead taken
    exact .inr ⟨s', found', same ▸ expects⟩

/-- In a step the first of the awaited frames is read, or none. -/
theorem Awaits.of_step (awaits : Awaits r conn ((step.arrival? conn).toList ++ more) fs)
    (taken : r.step step = some r') (ends : step = .finish conn → more = []) :
    ∃ fs', readFrom (r.event? h step).toList conn ++ fs' = fs ∧ Awaits r' conn more fs' := by
  by_cases feeds : step.feeds conn
  · have noRead : step ≠ .read conn := by
      rintro rfl
      cases feeds
    exact ⟨fs, by rw [readFrom_of_other noRead, List.nil_append], awaits.of_feed feeds taken ends⟩
  · rw [Bool.not_eq_true] at feeds
    rw [arrival?_of_not_feeds feeds, Option.toList_none, List.nil_append] at awaits
    by_cases reads : step = .read conn
    · subst reads
      obtain ⟨s, found, reading, arrived, expects, rfl⟩ := awaits.of_read taken
      rw [readFrom_of_read found]
      rcases expects.next arrived with ⟨rfl, none⟩ | ⟨f, fs', rfl, given, expects'⟩
      · refine ⟨[], ?_, .inl (spent_setSession found _ ?_)⟩
        · split
          next f given => exact absurd given (none f)
          next => rfl
        · rw [Session.actOnReading_of_no_frame none]
          rfl
      · rw [given]
        exact ⟨fs', rfl, .inr ⟨_, session?_setSession_self found, expects'⟩⟩
    · exact ⟨fs, by rw [readFrom_of_other reads, List.nil_append],
        awaits.of_other feeds reads taken⟩

/-- Nothing arrives after a client has finished. -/
theorem arrivals_after_finish (taken : r.step (.finish conn) = some r')
    (ran : r'.run steps = some r'') : arrivals conn steps = [] := by
  have feeds : Step.feeds conn (.finish conn) = true := decide_eq_true rfl
  obtain ⟨s, y, found, -, rfl, ⟨read, other, -⟩ | ⟨-, rfl⟩⟩ := feed_cases feeds taken
  · cases other
  · rw [← setSession_with_reader found] at ran
    exact arrivals_of_closed (session?_setSession_self found) rfl ran

theorem arrivals_of_finished (ran : r.run (before ++ after) = some r')
    (finished : .finish conn ∈ before) : arrivals conn after = [] := by
  obtain ⟨front, back, rfl⟩ := List.append_of_mem finished
  rw [List.append_assoc, run_append] at ran
  obtain ⟨r₁, -, ran⟩ := Option.bind_eq_some_iff.mp ran
  obtain ⟨r₂, taken, onward⟩ := Option.bind_eq_some_iff.mp ran
  have none : arrivals conn (back ++ after) = [] := arrivals_after_finish taken onward
  rw [arrivals_append] at none
  exact (List.append_eq_nil_iff.mp none).2

theorem nothing_after_finish (taken : r.step step = some r') (ran : r'.run steps = some r'')
    (ends : .finish conn ∈ step :: steps → later = []) (finishes : step = .finish conn) :
    arrivals conn steps ++ later = [] := by
  subst finishes
  rw [arrivals_after_finish taken ran, ends List.mem_cons_self]
  rfl

/-- What was read in a run and what is still awaited make up what was awaited at first. -/
theorem record_awaits (recorded : record h r steps = some (h', r'))
    (awaits : Awaits r conn (arrivals conn steps ++ later) fs)
    (ends : .finish conn ∈ steps → later = []) :
    ∃ fs', readFrom h' conn ++ fs' = readFrom h conn ++ fs ∧ Awaits r' conn later fs' := by
  induction steps generalizing h r fs with
  | nil =>
    cases recorded
    exact ⟨fs, rfl, awaits⟩
  | cons step steps ih =>
    obtain ⟨next, taken, recorded⟩ := Option.bind_eq_some_iff.mp recorded
    have ran : next.run steps = some r' := run_of_record recorded
    rw [arrivals_cons, List.append_assoc] at awaits
    obtain ⟨fs₁, shown, awaits₁⟩ :=
      awaits.of_step (h := h) taken (nothing_after_finish taken ran ends)
    obtain ⟨fs', whole, awaits'⟩ := ih recorded awaits₁
      fun later => ends (List.mem_cons_of_mem step later)
    refine ⟨fs', ?_, awaits'⟩
    rw [whole, readFrom_append, List.append_assoc, shown]

/-- What was not accepted yet is neither fed nor read. -/
theorem untouched_of_unknown (taken : r.step step = some r') (unknown : r.sessions.length ≤ conn) :
    step.feeds conn = false ∧ step ≠ .read conn := by
  have missing : ∀ s, r.session? conn ≠ some s := by
    intro s found
    exact absurd (List.getElem?_eq_some_iff.mp found).1 (Nat.not_lt.mpr unknown)
  constructor
  · refine Bool.eq_false_iff.mpr fun feeds => ?_
    obtain ⟨s, y, found, -⟩ := feed_cases feeds taken
    exact missing s found
  · rintro rfl
    obtain ⟨s, found, -⟩ := read_cases taken
    exact missing s found

theorem record_of_unknown (recorded : record h r steps = some (h', r'))
    (unknown : r'.sessions.length ≤ conn) :
    readFrom h' conn = readFrom h conn ∧ ∀ step ∈ steps, step.feeds conn = false := by
  induction steps generalizing h r with
  | nil =>
    cases recorded
    exact ⟨rfl, nofun⟩
  | cons step steps ih =>
    obtain ⟨next, taken, onward⟩ := Option.bind_eq_some_iff.mp recorded
    obtain ⟨same, unfed⟩ := ih onward
    have ran : r.run (step :: steps) = some r' := run_of_record recorded
    have before : r.sessions.length ≤ conn := by
      rw [(run_keeps ran).2] at unknown
      exact Nat.le_trans (Nat.le_add_right _ _) unknown
    obtain ⟨other, noRead⟩ := untouched_of_unknown taken before
    rw [same, readFrom_append, readFrom_of_other noRead, List.append_nil]
    refine ⟨rfl, fun s mem => ?_⟩
    rcases List.mem_cons.mp mem with rfl | later
    · exact other
    · exact unfed s later

/-- A connection is accepted in one of the steps, and as many before as its number says. -/
theorem exists_accept {n : Nat} (more : n < steps.countP Step.isAccept) :
    ∃ before peer after, steps = before ++ .accept peer :: after ∧
      before.countP Step.isAccept = n := by
  induction steps generalizing n with
  | nil => cases more
  | cons step steps ih =>
    by_cases accepts : step.isAccept
    · cases n with
      | zero =>
        cases step with
        | accept peer => exact ⟨[], peer, steps, rfl, rfl⟩
        | _ => cases accepts
      | succ n =>
        rw [List.countP_cons_of_pos accepts] at more
        obtain ⟨before, peer, after, rfl, count⟩ := ih (Nat.lt_of_succ_lt_succ more)
        exact ⟨step :: before, peer, after, rfl, by rw [List.countP_cons_of_pos accepts, count]⟩
    · rw [List.countP_cons_of_neg accepts] at more
      obtain ⟨before, peer, after, rfl, count⟩ := ih more
      exact ⟨step :: before, peer, after, rfl, by rw [List.countP_cons_of_neg accepts, count]⟩

/-- A run up to a connection's acceptance and from there on. -/
structure Opens (limits : Limits) (conn : ConnId) (before : List Step) (peer : Address)
    (h₁ : History) (r₁ : Relay) : Prop where
  recorded : record [] (.fresh limits) before = some (h₁, r₁)
  taken : r₁.step (.accept peer) = some (r₁.accept peer)
  unread : readFrom h₁ conn = []
  unfed : ∀ step ∈ before, step.feeds conn = false
  session : ∃ s, (r₁.accept peer).session? conn = some s ∧
    s.reader = .fresh limits.maxFrameSize

theorem opens_of_record {peer : Address} (count : before.countP Step.isAccept = conn)
    (recorded : record [] (.fresh limits) (before ++ .accept peer :: after) = some (h, r)) :
    ∃ h₁ r₁, Opens limits conn before peer h₁ r₁ ∧
      record h₁ (r₁.accept peer) after = some (h, r) := by
  rw [record_append] at recorded
  obtain ⟨⟨h₁, r₁⟩, first, recorded⟩ := Option.bind_eq_some_iff.mp recorded
  obtain ⟨next, taken, onward⟩ := Option.bind_eq_some_iff.mp recorded
  have ran : (fresh limits).run before = some r₁ := run_of_record first
  have number : r₁.sessions.length = conn := (length_of_run ran).trans count
  obtain ⟨unread, unfed⟩ := record_of_unknown first (Nat.le_of_eq number)
  have accepted : next = r₁.accept peer := by
    simp only [Relay.step] at taken
    split at taken <;> cases taken
    rfl
  subst accepted
  have silent : r₁.event? h₁ (.accept peer) = none := rfl
  rw [silent, Option.toList_none, List.append_nil] at onward
  refine ⟨h₁, r₁, ⟨first, taken, unread, unfed, ?_⟩, onward⟩
  have reader : FrameReader.fresh r₁.limits.maxFrameSize = .fresh limits.maxFrameSize :=
    congrArg (fun l => FrameReader.fresh l.maxFrameSize) (run_keeps ran).1
  rw [accept, session?, ← number]
  split
  · exact ⟨_, List.getElem?_concat_length, reader⟩
  · exact ⟨_, List.getElem?_concat_length, reader⟩

/-- Of a stream a connection awaits all first frames when it is accepted. -/
theorem Opens.awaits {peer : Address} {h₁ : History} {r₁ : Relay}
    (opens : Opens limits conn before peer h₁ r₁) (sent : List Read) :
    Awaits (r₁.accept peer) conn sent (firstFrames limits.maxFrameSize (received sent)) := by
  obtain ⟨s, found, fresh⟩ := opens.session
  refine .inr ⟨s, found, ?_⟩
  rw [fresh]
  exact FrameReader.expects_fresh _ sent

theorem Opens.arrivals {peer : Address} {h₁ : History} {r₁ : Relay}
    (opens : Opens limits conn before peer h₁ r₁) (after : List Step) :
    arrivals conn (before ++ .accept peer :: after) = arrivals conn after := by
  rw [arrivals_append, arrivals_of_not_feeds opens.unfed]
  rfl

/-- The frames that were read from a connection are the first ones of its stream. -/
theorem record_awaits_fresh (recorded : record [] (.fresh limits) steps = some (h, r))
    (accepted : conn < r.sessions.length) (ends : .finish conn ∈ steps → later = []) :
    ∃ fs, readFrom h conn ++ fs =
        firstFrames limits.maxFrameSize (received (arrivals conn steps ++ later)) ∧
      Awaits r conn later fs := by
  have ran : (fresh limits).run steps = some r := run_of_record recorded
  rw [length_of_run ran] at accepted
  obtain ⟨before, peer, after, rfl, count⟩ := exists_accept accepted
  obtain ⟨h₁, r₁, opens, onward⟩ := opens_of_record count recorded
  rw [opens.arrivals]
  obtain ⟨fs, whole, awaits⟩ := record_awaits onward (opens.awaits _) fun finishes =>
    ends (List.mem_append_right _ (List.mem_cons_of_mem _ finishes))
  rw [opens.unread, List.nil_append] at whole
  exact ⟨fs, whole, awaits⟩

theorem Delivers.exists_later (delivers : Delivers conn sent steps) :
    ∃ later, arrivals conn steps ++ later = sent ∧ (.finish conn ∈ steps → later = []) := by
  obtain ⟨later, whole⟩ := delivers.begins
  refine ⟨later, whole, fun finishes => ?_⟩
  rw [delivers.ends finishes] at whole
  exact List.append_right_eq_self.mp whole

/-- Nothing is read from a connection whose session has come to its end. -/
theorem not_mem_of_spent (spent : Spent r conn) (ran : r.run steps = some r') :
    .read conn ∉ steps := by
  induction steps generalizing r with
  | nil => exact List.not_mem_nil
  | cons step steps ih =>
    obtain ⟨next, taken, onward⟩ := Option.bind_eq_some_iff.mp ran
    intro mem
    rcases List.mem_cons.mp mem with rfl | later
    · obtain ⟨s, found, reading, -⟩ := read_cases taken
      exact not_spent_of_reading found reading spent
    · exact ih (spent_of_step spent taken) onward later

end Relay

end Mailroom
