import Mailroom.Proofs.Frame.RoundTrip
import Mailroom.Proofs.Relay.Awaiting

/-!
# A line that cannot be read

A stream fails at its first line that is too long, does not decode or is cut off. Of such a stream a
session reads the frames before that line, in their order, and then it ends: what comes after, the
rest of a line that is too long included, is never acted on. For everyone else the run is the same
as one in which the stream ends right before the line.

Two runs are compared that take the same steps except those by which something arrives from the
client. In both, the reader of that client can be replaced by one that holds the frames before the
line from the beginning.
-/

namespace Mailroom

open History ByteStream

namespace Relay

variable {limits : Limits} {h h' : History} {r r' r'' : Relay} {conn : ConnId} {s : Session}
  {step : Step} {steps before after : List Step} {more later sent : List Read} {fs : List Inbound}
  {x : FrameReader}

/-- The steps but for those by which something arrives from a client. -/
def others (conn : ConnId) (steps : List Step) : List Step :=
  steps.filter fun step => !step.feeds conn

theorem others_append (conn : ConnId) (steps more : List Step) :
    others conn (steps ++ more) = others conn steps ++ others conn more := List.filter_append ..

theorem others_of_not_feeds (unfed : ∀ step ∈ steps, step.feeds conn = false) :
    others conn steps = steps :=
  List.filter_eq_self.mpr fun step mem => by rw [unfed step mem]; rfl

theorem countP_isAccept_others (conn : ConnId) (steps : List Step) :
    (others conn steps).countP Step.isAccept = steps.countP Step.isAccept := by
  rw [others, List.countP_filter]
  congr 1
  funext step
  cases step <;> simp [Step.isAccept, Step.feeds]

/-- With another reader that gives the same frames a session reads the same. -/
theorem Awaits.read_withReader (awaits : Awaits r conn more fs)
    (taken : r.step (.read conn) = some r') (closed : x.isOpen = false)
    (holds : Spent r conn ∨ x.Expects [] fs) :
    ∃ fs' y, (r.withReader conn x).step (.read conn) = some (r'.withReader conn y) ∧
      Awaits r' conn more fs' ∧ y.isOpen = false ∧ (Spent r' conn ∨ y.Expects [] fs') := by
  obtain ⟨s, found, reading, arrived, expects, rfl⟩ := awaits.of_read taken
  have expects' : x.Expects [] fs := holds.resolve_left (not_spent_of_reading found reading)
  have arrived' := expects'.not_waiting closed
  have closed' := (FrameReader.isOpen_next x).trans closed
  rcases expects.next arrived with ⟨rfl, none⟩ | ⟨f, fs', rfl, given, after⟩
  · have none' : ∀ f, x.next.1 ≠ .frame f := by
      rcases expects'.next arrived' with ⟨-, none'⟩ | ⟨f, fs', other, -, -⟩
      · exact none'
      · cases other
    have same : s.actOnReading x.next.1 = s.actOnReading s.reader.next.1 :=
      (Session.actOnReading_of_no_frame none').trans (Session.actOnReading_of_no_frame none).symm
    have ended : (s.actOnReading s.reader.next.1).isSpent := by
      rw [Session.actOnReading_of_no_frame none]
      rfl
    have spent := spent_setSession found { s with
      activity := s.actOnReading s.reader.next.1, reader := s.reader.next.2 } ended
    exact ⟨[], _, step_read_withReader found reading arrived' same, .inl spent, closed',
      .inl spent⟩
  · rcases expects'.next arrived' with ⟨other, -⟩ | ⟨f', fs'', first, given', after'⟩
    · cases other
    · cases first
      have same : s.actOnReading x.next.1 = s.actOnReading s.reader.next.1 := by
        rw [given, given']
      exact ⟨fs', _, step_read_withReader found reading arrived' same,
        .inr ⟨_, session?_setSession_self found, after⟩, closed', .inr after'⟩

/-- A closed reader that holds the awaited frames can take the place of a connection's own. Then
nothing has to arrive. -/
theorem run_withReader (ran : r.run steps = some r')
    (awaits : Awaits r conn (arrivals conn steps ++ later) fs)
    (ends : .finish conn ∈ steps → later = []) (closed : x.isOpen = false)
    (holds : Spent r conn ∨ x.Expects [] fs) :
    ∃ y, (r.withReader conn x).run (others conn steps) = some (r'.withReader conn y) := by
  induction steps generalizing r fs x with
  | nil =>
    cases ran
    exact ⟨x, rfl⟩
  | cons step steps ih =>
    obtain ⟨next, taken, onward⟩ := Option.bind_eq_some_iff.mp ran
    have ends' : .finish conn ∈ steps → later = [] :=
      fun later => ends (List.mem_cons_of_mem step later)
    rw [arrivals_cons, List.append_assoc] at awaits
    by_cases feeds : step.feeds conn
    · have awaits' := awaits.of_feed feeds taken (nothing_after_finish taken onward ends)
      obtain ⟨s, y, -, -, rfl, -⟩ := feed_cases feeds taken
      have skipped : others conn (step :: steps) = others conn steps := by simp [others, feeds]
      have again := ih onward awaits' ends' closed
        (holds.imp_left fun spent => spent_of_step spent taken)
      rw [withReader_withReader] at again
      rw [skipped]
      exact again
    · rw [Bool.not_eq_true] at feeds
      rw [arrival?_of_not_feeds feeds, Option.toList_none, List.nil_append] at awaits
      have kept : others conn (step :: steps) = step :: others conn steps := by
        simp [others, feeds]
      rw [kept, run_cons]
      by_cases reads : step = .read conn
      · subst reads
        obtain ⟨fs', y, again, awaits', closed', holds'⟩ :=
          awaits.read_withReader taken closed holds
        rw [again]
        exact ih onward awaits' ends' closed' holds'
      · have blind := step_withReader (x := x) awaits.known feeds reads
        rw [blind, taken]
        exact ih onward (awaits.of_other feeds reads taken) ends' closed
          (holds.imp_left fun spent => spent_of_step spent taken)

/-- From the acceptance of a connection on, a reader that holds the first frames of its stream can
take the place of its own. -/
theorem run_replaced {peer : Address} (count : before.countP Step.isAccept = conn)
    (ran : (fresh limits).run (before ++ .accept peer :: after) = some r)
    (delivers : Delivers conn sent (before ++ .accept peer :: after)) (closed : x.isOpen = false)
    (holds : x.Expects [] (firstFrames limits.maxFrameSize (received sent))) :
    ∃ h₁ r₁ y, Opens limits conn before peer h₁ r₁ ∧
      ((r₁.accept peer).withReader conn x).run (others conn after) =
        some (r.withReader conn y) := by
  rw [run_eq_record []] at ran
  obtain ⟨⟨h, r'⟩, recorded, rfl⟩ := Option.map_eq_some_iff.mp ran
  obtain ⟨h₁, r₁, opens, onward⟩ := opens_of_record count recorded
  obtain ⟨later, whole, ends⟩ := delivers.exists_later
  rw [opens.arrivals] at whole
  subst whole
  have ran : (r₁.accept peer).run after = some r' := run_of_record onward
  obtain ⟨y, again⟩ := run_withReader ran (opens.awaits _)
    (fun finishes => ends (List.mem_append_right _ (List.mem_cons_of_mem _ finishes))) closed
    (.inr holds)
  exact ⟨h₁, r₁, y, opens, again⟩

/-- Steps that are the same but for what arrives from a client accept its connection at the same
place. -/
theorem split_of_others {peer : Address} {steps' : List Step}
    (count : before.countP Step.isAccept = conn)
    (same : others conn steps' = others conn (before ++ .accept peer :: after)) :
    ∃ before' after', steps' = before' ++ .accept peer :: after' ∧
      before'.countP Step.isAccept = conn ∧ others conn before' = others conn before ∧
      others conn after' = others conn after := by
  have kept : others conn (.accept peer :: after) = .accept peer :: others conn after := rfl
  rw [others_append, kept] at same
  obtain ⟨front, back, rfl, front_eq, back_eq⟩ := List.filter_eq_append_iff.mp same
  obtain ⟨between, after', rfl, unkept, -, after_eq⟩ := List.filter_eq_cons_iff.mp back_eq
  have nothing : others conn between = [] :=
    List.filter_eq_nil_iff.mpr unkept
  have before_eq : others conn (front ++ between) = others conn before := by
    rw [others_append, nothing, List.append_nil]
    exact front_eq
  refine ⟨front ++ between, after', by simp, ?_, before_eq, after_eq⟩
  rw [← countP_isAccept_others conn, before_eq, countP_isAccept_others, count]

/-- The same steps, but what arrives from a client is a stream of these bytes that then ends. -/
structure Cuts (conn : ConnId) (good : Bytes) (steps steps' : List Step) : Prop where
  same : others conn steps' = others conn steps
  delivers : ∃ pieces : List Bytes, pieces.flatten = good ∧
    Delivers conn (pieces.map .bytes) steps'

/-- A reader that holds the whole of a stream that has ended. -/
def holding (limit : Nat) (good : Bytes) : FrameReader :=
  ((FrameReader.fresh limit).push (.bytes good)).close

theorem expects_holding (limit : Nat) (good : Bytes) :
    (holding limit good).Expects [] (firstFrames limit good) := by
  have expects := FrameReader.expects_fresh limit [.bytes good]
  rw [received, received, List.append_nil] at expects
  exact expects.push.close

/-- All of a stream arrives, and its end, right after a connection is accepted. -/
theorem Opens.run_fed {peer : Address} {h₁ : History} {r₁ : Relay}
    (opens : Opens limits conn before peer h₁ r₁) (good : Bytes) (more : List Step) :
    (fresh limits).run
        (before ++ .accept peer :: .arrive conn (.bytes good) :: .finish conn :: more) =
      ((r₁.accept peer).withReader conn (holding limits.maxFrameSize good)).run more := by
  obtain ⟨s, found, fresh_reader⟩ := opens.session
  have ran : (fresh limits).run before = some r₁ := run_of_record opens.recorded
  have isOpen : s.reader.isOpen = true := by
    rw [fresh_reader]
    rfl
  have fed : ((r₁.accept peer).withReader conn (s.reader.push (.bytes good))).session? conn =
      some { s with reader := s.reader.push (.bytes good) } := by
    rw [← setSession_with_reader found]
    exact session?_setSession_self found
  rw [run_append, ran, Option.bind_some, run_cons, opens.taken, Option.bind_some, run_cons,
    step_arrive found isOpen, Option.bind_some, run_cons, step_finish fed isOpen,
    withReader_withReader, fresh_reader]
  rfl

/-- A run in which the stream of a client is cut. -/
theorem exists_cut {peer : Address} {good : Bytes} (count : before.countP Step.isAccept = conn)
    (ran : (fresh limits).run (before ++ .accept peer :: after) = some r)
    (delivers : Delivers conn sent (before ++ .accept peer :: after))
    (same : firstFrames limits.maxFrameSize (received sent) =
      firstFrames limits.maxFrameSize good) :
    ∃ steps', Cuts conn good (before ++ .accept peer :: after) steps' ∧ .finish conn ∈ steps' ∧
      ((fresh limits).run steps').isSome := by
  have holds := expects_holding limits.maxFrameSize good
  rw [← same] at holds
  obtain ⟨h₁, r₁, y, opens, again⟩ := run_replaced count ran delivers rfl holds
  refine ⟨before ++ .accept peer :: .arrive conn (.bytes good) :: .finish conn ::
    others conn after, ⟨?_, [good], by simp, ?_⟩, by simp, ?_⟩
  · rw [others_append, others_append]
    simp [others, Step.feeds, List.filter_filter]
  · have unfed : ∀ step ∈ others conn after, step.feeds conn = false := by
      intro step mem
      simpa using (List.mem_filter.mp mem).2
    have whole : arrivals conn (before ++ .accept peer :: .arrive conn (.bytes good) ::
        .finish conn :: others conn after) = [.bytes good] := by
      rw [opens.arrivals, arrivals_cons, arrivals_cons, arrivals_of_not_feeds unfed]
      simp [Step.arrival?]
    exact ⟨whole ▸ List.prefix_refl _, fun _ => whole⟩
  · rw [opens.run_fed, again]
    rfl

/-- All runs in which the stream of a client is cut lead to the same state but for the reader. -/
theorem withReader_eq_of_cuts {steps' : List Step} {good : Bytes}
    (accepted : conn < r.sessions.length) (ran : (fresh limits).run steps = some r)
    (delivers : Delivers conn sent steps) (cuts : Cuts conn good steps steps')
    (ran' : (fresh limits).run steps' = some r')
    (same : firstFrames limits.maxFrameSize (received sent) =
      firstFrames limits.maxFrameSize good) :
    ∃ y y', r'.withReader conn y' = r.withReader conn y := by
  rw [length_of_run ran] at accepted
  obtain ⟨before, peer, after, rfl, count⟩ := exists_accept accepted
  obtain ⟨before', after', rfl, count', before_eq, after_eq⟩ := split_of_others count cuts.same
  obtain ⟨pieces, whole, delivers'⟩ := cuts.delivers
  have holds := expects_holding limits.maxFrameSize good
  have holds' := holds
  rw [← same] at holds
  have same' : firstFrames limits.maxFrameSize (received (pieces.map .bytes)) =
      firstFrames limits.maxFrameSize good := by
    rw [received_bytes, whole]
  rw [← same'] at holds'
  obtain ⟨h₁, r₁, y, opens, again⟩ := run_replaced count ran delivers rfl holds
  obtain ⟨h₂, r₂, y', opens', again'⟩ := run_replaced count' ran' delivers' rfl holds'
  rw [others_of_not_feeds opens.unfed, others_of_not_feeds opens'.unfed] at before_eq
  subst before_eq
  have recorded := opens.recorded.symm.trans opens'.recorded
  cases recorded
  rw [after_eq, again] at again'
  exact ⟨y, y', (Option.some.inj again').symm⟩

/-- A session that has read all frames before the line that fails ends when it reads on. -/
theorem ends_of_read_all {h₁ : History} {r₁ : Relay}
    (ran : (fresh limits).run (before ++ .read conn :: after) = some r)
    (delivers : Delivers conn sent (before ++ .read conn :: after))
    (recorded : record [] (.fresh limits) before = some (h₁, r₁))
    (all : readFrom h₁ conn = firstFrames limits.maxFrameSize (received sent)) :
    ∃ r₂ i?, r₁.step (.read conn) = some r₂ ∧ r₂.standing? conn = some ⟨i?, .closing⟩ ∧
      .read conn ∉ after := by
  have first : (fresh limits).run before = some r₁ := run_of_record recorded
  obtain ⟨later, whole, ends⟩ := delivers.exists_later
  have ends₁ : .finish conn ∈ before → arrivals conn (.read conn :: after) ++ later = [] := by
    intro finished
    rw [arrivals_of_finished ran finished, ends (List.mem_append_left _ finished)]
    rfl
  rw [run_append, first, Option.bind_some, run_cons] at ran
  obtain ⟨r₂, taken, onward⟩ := Option.bind_eq_some_iff.mp ran
  have accepted : conn < r₁.sessions.length := by
    obtain ⟨s, found, -⟩ := read_cases taken
    exact (List.getElem?_eq_some_iff.mp found).1
  obtain ⟨fs, parts, awaits⟩ := record_awaits_fresh recorded accepted ends₁
  rw [← List.append_assoc, ← arrivals_append, whole, all] at parts
  obtain rfl : fs = [] := List.append_right_eq_self.mp parts
  obtain ⟨s, found, reading, arrived, expects, rfl⟩ := awaits.of_read taken
  rcases expects.next arrived with ⟨-, none⟩ | ⟨f, fs', other, -, -⟩
  · rw [Session.actOnReading_of_no_frame none] at taken onward
    exact ⟨_, s.identity?, taken, standing?_of_session? (session?_setSession_self found),
      not_mem_of_spent (spent_setSession found _ rfl) onward⟩
  · cases other

/-- Of a stream that fails at some line a session reads the frames before this line, in their order;
each of them is the decoding of a complete line. When it has read them all and reads on it ends,
and nothing more is read. If the stream is cut right before the line and the other steps stay the
same, then the run is still possible, and it leads to the same registry, the same queues and the
same other sessions. -/
theorem failing_line_ends_own_connection {good : Bytes}
    (recorded : record [] (.fresh limits) steps = some (h, r)) (accepted : conn < r.sessions.length)
    (delivers : Delivers conn sent steps) (lines : FrameLines limits.maxFrameSize good fs)
    (fails : FailsAfter limits.maxFrameSize sent good) :
    (readFrom h conn <+: fs ∧ ∀ f ∈ readFrom h conn, StandsIn good f) ∧
    (∀ before after h₁ r₁, steps = before ++ .read conn :: after →
      record [] (.fresh limits) before = some (h₁, r₁) → readFrom h₁ conn = fs →
      ∃ r₂ i?, r₁.step (.read conn) = some r₂ ∧ r₂.standing? conn = some ⟨i?, .closing⟩ ∧
        .read conn ∉ after) ∧
    (∃ steps', Cuts conn good steps steps' ∧ .finish conn ∈ steps' ∧
      ((fresh limits).run steps').isSome) ∧
    ∀ steps' r', Cuts conn good steps steps' → (fresh limits).run steps' = some r' →
      r'.exchange = r.exchange ∧ ∀ k, k ≠ conn → r'.session? k = r.session? k := by
  have frames := firstFrames_of_fails lines fails
  have same := frames.trans (firstFrames_of_lines lines).symm
  have ran : (fresh limits).run steps = some r := run_of_record recorded
  refine ⟨?_, ?_, ?_, ?_⟩
  · obtain ⟨later, whole, ends⟩ := delivers.exists_later
    obtain ⟨rest, parts, -⟩ := record_awaits_fresh recorded accepted ends
    rw [whole, frames] at parts
    refine ⟨⟨rest, parts⟩, fun f read => lines.standsIn f ?_⟩
    rw [← parts]
    exact List.mem_append_left rest read
  · rintro before after h₁ r₁ rfl recorded₁ all
    exact ends_of_read_all ran delivers recorded₁ (all.trans frames.symm)
  · have opened := accepted
    rw [length_of_run ran] at opened
    obtain ⟨before, peer, after, rfl, count⟩ := exists_accept opened
    exact exists_cut count ran delivers same
  · intro steps' r' cuts ran'
    obtain ⟨y, y', alike⟩ := withReader_eq_of_cuts accepted ran delivers cuts ran' same
    have exchange : (r'.withReader conn y').exchange = (r.withReader conn y).exchange :=
      congrArg Relay.exchange alike
    refine ⟨exchange, fun k other => ?_⟩
    rw [← session?_withReader_of_ne r' y' other, alike, session?_withReader_of_ne r y other]

def smuggled : Envelope := .chat ⟨bob.id, none, "smuggled"⟩

/-- A client registers and sends a line that is too long, with a frame at its end. -/
def smuggling : List Step :=
  enters 0 ann ++ enters 1 bob ++ [.enqueue 1 0,
    .arrive 1 (.bytes (List.replicate 64 65 ++ Frame.encode smuggled)), .read 1, .hangUp 1,
    .unregister 1]

/-- Nobody is told what is at the end of the line, and it makes no difference that the line is
there. -/
theorem failing_line_ends_own_connection_smuggling :
    ∃ h r, record [] (.fresh ⟨4, 50, 64⟩) smuggling = some (h, r) ∧
      readFrom h 1 <+: [⟨.registration bob, Frame.encode (.registration bob)⟩] ∧
      ∃ steps' r', Cuts 1 (Frame.encode (.registration bob)) smuggling steps' ∧
        (fresh ⟨4, 50, 64⟩).run steps' = some r' ∧ r'.exchange = r.exchange := by
  have ran : (record [] (.fresh ⟨4, 50, 64⟩) smuggling).map (fun p => p.2.sessions.length) =
      some 2 := by decide +kernel
  obtain ⟨⟨h, r⟩, recorded, two⟩ := Option.map_eq_some_iff.mp ran
  have accepted : 1 < r.sessions.length := Nat.lt_of_lt_of_eq Nat.one_lt_two two.symm
  have arrived : arrivals 1 smuggling = [.bytes (Frame.encode (.registration bob)),
      .bytes (List.replicate 64 65 ++ Frame.encode smuggled)] := rfl
  have delivers : Delivers 1 _ smuggling := ⟨List.prefix_refl _, fun _ => rfl⟩
  have lines : FrameLines 64 (Frame.encode (.registration bob))
      [⟨.registration bob, Frame.encode (.registration bob)⟩] :=
    .frame (Wire.lineFeed_notMem_write _) (by decide +kernel) (Frame.decode_encode _) .nil
  have fails : FailsAfter 64 (arrivals 1 smuggling) (Frame.encode (.registration bob)) :=
    @FailsAfter.tooLarge _ _ _ (List.replicate 64 65) (Frame.encode smuggled) (by decide)
      (by decide) (by decide) (by rw [arrived]; simp [received])
  obtain ⟨⟨begins, -⟩, -, ⟨steps', cuts, -, runs⟩, alike⟩ :=
    failing_line_ends_own_connection recorded accepted delivers lines fails
  obtain ⟨r', ran⟩ := Option.isSome_iff_exists.mp runs
  exact ⟨h, r, recorded, begins, steps', r', cuts, ran, (alike steps' r' cuts ran).1⟩

end Relay

end Mailroom
