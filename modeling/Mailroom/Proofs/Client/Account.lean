import Mailroom.Proofs.Client.Telling
import Mailroom.Proofs.Frame.Endings
import Mailroom.Proofs.Frame.RoundTrip

/-!
# What a client is told of a stream

The bytes of a relay reach a client in reads of any size, and between them the client takes in what
is there. Whatever the reads are, and whatever it is that the relay sends, the events of the client
are an account of the stream: one for each frame that has something to tell, in the order of the
frames up to the first failure, and at the end that the connection is lost, and why.
-/

namespace Mailroom

open ByteStream FrameReader Transfer

/-- What is written for envelopes are lines that give these back. -/
theorem ByteStream.frameLines_encode {limit : Nat} {es : List Envelope}
    (fit : ∀ e ∈ es, (Frame.encode e).length ≤ limit) :
    FrameLines limit (es.flatMap Frame.encode) (es.map fun e => ⟨e, Frame.encode e⟩) := by
  induction es with
  | nil => exact .nil
  | cons e es ih =>
    have others := ih fun e' here => fit e' (List.mem_cons_of_mem e here)
    have short := fit e List.mem_cons_self
    rw [Frame.encode, List.length_append, List.length_singleton] at short
    rw [List.flatMap_cons, Frame.encode, List.append_assoc]
    exact .frame (Wire.lineFeed_notMem_write e) short (Frame.decode_encode e) others

namespace Inbox

variable {σ : Type}

def withReader (i : Inbox σ) (reader : FrameReader) : Inbox σ := { i with reader }

/-- Something that happens to a client. -/
inductive Step where
  | arrive (read : Read)
  | finish
  | read

def step [Storage σ] (i : Inbox σ) : Step → List ClientEvent × Inbox σ
  | .arrive read => ([], i.arrive read)
  | .finish => ([], i.finish)
  | .read => i.read

/-- The events of successive steps. -/
def run [Storage σ] (i : Inbox σ) : List Step → List ClientEvent × Inbox σ
  | [] => ([], i)
  | step :: steps =>
    ((i.step step).1 ++ ((i.step step).2.run steps).1, ((i.step step).2.run steps).2)

/-- The reads that arrive in these steps. -/
def arrivals (steps : List Step) : List Read :=
  steps.filterMap fun
    | .arrive read => some read
    | _ => none

section

variable [Storage σ] {good : σ → Prop} {read? : σ → (path : String) → Option Bytes} {dir : String}
  {limit : Nat} {isOpen : Bool} {start i : Inbox σ} {sent more : List Read}
  {fs : List Inbound} {r : FrameReader} {events : List ClientEvent} {fuel : Nat}

/-- A client that has acted on these frames of a stream, before the next call of its reader. -/
def reading (start : Inbox σ) (fs : List Inbound) (r : FrameReader) : Inbox σ :=
  (start.acceptAll (fs.map Inbound.envelope)).2.withReader r

/-- A client that has acted on these frames of a stream and has lost its connection then. -/
def stopped (start : Inbox σ) (fs : List Inbound) (r : FrameReader) : Inbox σ :=
  { start.reading fs r with isConnected := false }

/-- What a client is told of these frames. -/
def told (start : Inbox σ) (fs : List Inbound) : List ClientEvent :=
  (start.acceptAll (fs.map Inbound.envelope)).1

/-- How far a client has come in a stream, of which the reads `more` are still to arrive, and what
it has been told since it started. -/
inductive Stage (limit : Nat) (isOpen : Bool) (start : Inbox σ) (sent more : List Read)
    (events : List ClientEvent) (i : Inbox σ) : Prop
  | reading {fs : List Inbound} {r : FrameReader}
      (progress : Progress limit isOpen sent more fs r) (told : events = start.told fs)
      (state : i = start.reading fs r)
  | stopped {fs : List Inbound} {e? : Option FrameError} {r : FrameReader}
      (reads : Reads limit sent fs e?) (told : events = start.told fs ++ [.connectionLost e?])
      (state : i = start.stopped fs r)

theorem accept_withReader (i : Inbox σ) (x : FrameReader) (e : Envelope) :
    (i.withReader x).accept e = ((i.accept e).1, (i.accept e).2.withReader x) := by
  cases e <;> rfl

theorem told_concat (start : Inbox σ) (fs : List Inbound) (f : Inbound) (r : FrameReader) :
    start.told (fs ++ [f]) =
      start.told fs ++ ((start.reading fs r).accept f.envelope).1.toList := by
  rw [told, List.map_append, List.map_singleton, acceptAll_concat, reading, accept_withReader]
  rfl

theorem reading_concat (start : Inbox σ) (fs : List Inbound) (f : Inbound) (r : FrameReader) :
    start.reading (fs ++ [f]) r = ((start.reading fs r).accept f.envelope).2 := by
  rw [reading, List.map_append, List.map_singleton, acceptAll_concat, reading, accept_withReader]

theorem isConnected_reading (start : Inbox σ) (fs : List Inbound) (r : FrameReader) :
    (start.reading fs r).isConnected = start.isConnected :=
  isConnected_acceptAll start (fs.map Inbound.envelope)

theorem readWith_of_frame {f : Inbound} {x : FrameReader} (connected : i.isConnected = true)
    (given : i.reader.next = (.frame f, x)) :
    readWith (fuel + 1) i =
      (((i.withReader x).accept f.envelope).1.toList ++
          (readWith fuel ((i.withReader x).accept f.envelope).2).1,
        (readWith fuel ((i.withReader x).accept f.envelope).2).2) := by
  rw [readWith, if_neg (by simp [connected]), given]
  rfl

theorem readWith_of_waiting {x : FrameReader} (connected : i.isConnected = true)
    (waits : i.reader.next = (.waiting, x)) : readWith (fuel + 1) i = ([], i.withReader x) := by
  rw [readWith, if_neg (by simp [connected]), waits]
  rfl

theorem readWith_of_ended {x : FrameReader} (connected : i.isConnected = true)
    (ends : i.reader.next = (.ended, x)) :
    readWith (fuel + 1) i =
      ([.connectionLost none], { i.withReader x with isConnected := false }) := by
  rw [readWith, if_neg (by simp [connected]), ends]
  rfl

theorem readWith_of_failed {e : FrameError} {x : FrameReader} (connected : i.isConnected = true)
    (fails : i.reader.next = (.failed e, x)) :
    readWith (fuel + 1) i =
      ([.connectionLost (some e)], { i.withReader x with isConnected := false }) := by
  rw [readWith, if_neg (by simp [connected]), fails]
  rfl

/-- Reading leads on in the stream, up to its end or until the reader waits. -/
theorem readWith_stage (positive : 0 < limit) (connected : start.isConnected = true)
    (progress : Progress limit isOpen sent more fs r) (enough : r.backlog < fuel) :
    Stage limit isOpen start sent more
        (start.told fs ++ (readWith fuel (start.reading fs r)).1)
        (readWith fuel (start.reading fs r)).2 ∧
      ((readWith fuel (start.reading fs r)).2.isConnected = true →
        isOpen = true ∧ (more = [] → failure? sent = none)) := by
  induction fuel generalizing fs r with
  | zero => cases enough
  | succ fuel ih =>
    have there := (isConnected_reading start fs r).trans connected
    rcases progress.next positive with ⟨f, given, progress'⟩ |
      ⟨waits, isOpen, unfailing, progress'⟩ | ⟨ends, reads⟩ | ⟨e, fails, reads⟩
    · have less := next_shortens r f given
      have later := ih progress' (by omega)
      rw [told_concat start fs f r.next.2, reading_concat, List.append_assoc] at later
      rw [readWith_of_frame there (Prod.ext given rfl)]
      exact later
    · rw [readWith_of_waiting there (Prod.ext waits rfl)]
      exact ⟨.reading progress' (List.append_nil _) rfl, fun _ => ⟨isOpen, unfailing⟩⟩
    · rw [readWith_of_ended there (Prod.ext ends rfl)]
      exact ⟨.stopped reads rfl rfl, nofun⟩
    · rw [readWith_of_failed there (Prod.ext fails rfl)]
      exact ⟨.stopped reads rfl rfl, nofun⟩

/-- A client without a connection is told of nothing. -/
theorem read_of_stopped (start : Inbox σ) (fs : List Inbound) (r : FrameReader) :
    (start.stopped fs r).read = ([], start.stopped fs r) :=
  rfl

theorem read_stage (positive : 0 < limit) (connected : start.isConnected = true)
    (stage : Stage limit isOpen start sent more events i) :
    Stage limit isOpen start sent more (events ++ i.read.1) i.read.2 ∧
      (i.read.2.isConnected = true → isOpen = true ∧ (more = [] → failure? sent = none)) := by
  cases stage with
  | @reading fs r progress told state =>
    subst told state
    exact readWith_stage positive connected progress (Nat.lt_succ_self _)
  | @stopped fs e? r reads told state =>
    subst told state
    rw [read_of_stopped, List.append_nil]
    exact ⟨.stopped reads rfl rfl, nofun⟩

/-- Nothing arrives after the end of the stream. -/
def Orderly : List Step → Prop
  | [] => True
  | .finish :: steps => arrivals steps = []
  | _ :: steps => Orderly steps

theorem arrive_stage {read : Read}
    (stage : Stage limit isOpen start sent (read :: more) events i) :
    Stage limit isOpen start sent more events (i.arrive read) := by
  cases stage with
  | reading progress told state =>
    subst state
    exact .reading progress.push told rfl
  | @stopped fs e? r reads told state =>
    subst state
    have next : (start.stopped fs r).arrive read = start.stopped fs (r.push read) := rfl
    exact .stopped reads told next

theorem finish_stage (stage : Stage limit isOpen start sent [] events i) :
    Stage limit false start sent [] events i.finish := by
  cases stage with
  | reading progress told state =>
    subst state
    exact .reading progress.close told rfl
  | @stopped fs e? r reads told state =>
    subst state
    have next : (start.stopped fs r).finish = start.stopped fs r.close := rfl
    exact .stopped reads told next

theorem orderly_of_no_arrivals {steps : List Step} (none : arrivals steps = []) :
    Orderly steps := by
  induction steps with
  | nil => trivial
  | cons step steps ih =>
    cases step with
    | arrive read => cases none
    | finish => exact none
    | read => exact ih none

/-- All steps together lead on in the stream that arrives in them. -/
theorem run_stage (positive : 0 < limit) (connected : start.isConnected = true) {steps : List Step}
    (orderly : Orderly steps)
    (stage : Stage limit isOpen start sent (arrivals steps) events i) :
    ∃ isOpen', Stage limit isOpen' start sent [] (events ++ (i.run steps).1) (i.run steps).2 ∧
      (isOpen = false ∨ .finish ∈ steps → isOpen' = false) := by
  induction steps generalizing isOpen events i with
  | nil =>
    refine ⟨isOpen, ?_, ?_⟩
    · rw [run, List.append_nil]
      exact stage
    · rintro (closed | here)
      · exact closed
      · cases here
  | cons step steps ih =>
    cases step with
    | arrive read =>
      obtain ⟨isOpen', later, closes⟩ := ih orderly (arrive_stage stage)
      refine ⟨isOpen', later, fun ends => closes (ends.imp_right ?_)⟩
      intro here
      simpa using here
    | finish =>
      have none : arrivals steps = [] := orderly
      have closed := finish_stage (none ▸ stage : Stage limit isOpen start sent [] events i)
      rw [← none] at closed
      obtain ⟨isOpen', later, closes⟩ := ih (orderly_of_no_arrivals none) closed
      exact ⟨isOpen', later, fun _ => closes (.inl rfl)⟩
    | read =>
      obtain ⟨isOpen', later, closes⟩ := ih orderly (read_stage positive connected stage).1
      rw [List.append_assoc] at later
      refine ⟨isOpen', later, fun ends => closes (ends.imp_right ?_)⟩
      intro here
      simpa using here

theorem run_append (i : Inbox σ) (steps later : List Step) :
    i.run (steps ++ later) =
      ((i.run steps).1 ++ ((i.run steps).2.run later).1, ((i.run steps).2.run later).2) := by
  induction steps generalizing i with
  | nil => rfl
  | cons step steps ih => rw [List.cons_append, run, ih, run, List.append_assoc]

/-- A client without a connection is told of nothing, whatever happens. -/
theorem run_of_stopped (start : Inbox σ) (fs : List Inbound) (r : FrameReader) (steps : List Step) :
    ∃ r', (start.stopped fs r).run steps = ([], start.stopped fs r') := by
  induction steps generalizing r with
  | nil => exact ⟨r, rfl⟩
  | cons step steps ih =>
    cases step with
    | arrive read => exact ih (r.push read)
    | finish => exact ih r.close
    | read => exact ih r

/-- A client that takes in what is there after the end of its stream, or after a failing read, has
been told of all frames up to the first failure and of the end. -/
theorem run_to_end (ownId : String) (storage : σ) (dir : String) {steps : List Step}
    (orderly : Orderly steps)
    (ends : .finish ∈ steps ∨ ∃ reason, .arrive (.failure reason) ∈ steps) :
    ∃ fs e? r, Reads Frame.defaultLimit (arrivals steps) fs e? ∧
      (fresh ownId storage dir).run (steps ++ [.read]) =
        ((fresh ownId storage dir).told fs ++ [.connectionLost e?],
          (fresh ownId storage dir).stopped fs r) := by
  have first : Stage Frame.defaultLimit true (fresh ownId storage dir) (arrivals steps)
      (arrivals steps) [] (fresh ownId storage dir) :=
    .reading (progress_fresh Frame.defaultLimit (arrivals steps)) rfl rfl
  have positive : 0 < Frame.defaultLimit := by decide
  obtain ⟨isOpen', stage, closes⟩ := run_stage positive rfl orderly first
  obtain ⟨last, waits⟩ := read_stage positive rfl stage
  have run : (fresh ownId storage dir).run (steps ++ [.read]) =
      ([] ++ ((fresh ownId storage dir).run steps).1 ++
        ((fresh ownId storage dir).run steps).2.read.1,
        ((fresh ownId storage dir).run steps).2.read.2) := by
    rw [run_append, List.nil_append]
    simp [run, step]
  cases last with
  | @reading fs r progress told state =>
    have connected : ((fresh ownId storage dir).run steps).2.read.2.isConnected = true := by
      rw [state, isConnected_reading]
      rfl
    obtain ⟨isOpen, unfailing⟩ := waits connected
    rcases ends with finished | ⟨reason, failed⟩
    · exact absurd (isOpen.symm.trans (closes (.inr finished))) nofun
    · refine absurd ?_ (failure?_eq_none.mp (unfailing rfl) reason)
      exact List.mem_filterMap.mpr ⟨_, failed, rfl⟩
  | @stopped fs e? r reads told state =>
    refine ⟨fs, e?, r, reads, ?_⟩
    rw [run, told, state]

/-- The events of a client are a faithful account of a stream that gives these frames and ends with
this error or none. -/
structure Faithful (read? : σ → (path : String) → Option Bytes) (ownId : String) (storage : σ)
    (dir : String) (sent : List Read) (fs : List Inbound) (e? : Option FrameError)
    (events : List ClientEvent) (i : Inbox σ) : Prop where
  /-- There is at most one event for each frame, in their order, and then the connection is lost. -/
  told : ∃ told, Telling ownId dir [] (fs.map Inbound.envelope) told ∧
    events = told ++ [.connectionLost e?]
  /-- It is lost once. -/
  once : ∀ before reason after, events = before ++ .connectionLost reason :: after →
    after = [] ∧ reason = e?
  /-- There is no error if all lines can be read and no read fails, and only then. -/
  clean : e? = none ↔ (∃ fs, FrameLines Frame.defaultLimit (received sent) fs) ∧
    ∀ reason, .failure reason ∉ sent
  /-- A file that is received was announced, and for each time anew. -/
  announced : ∀ before file after, events = before ++ .fileReceived file :: after →
    Announced ⟨file.fromId, file.fileName⟩ before
  /-- The files that came to be in the storage are those that were received. -/
  stored : ∀ path, (read? i.receiver.storage path).isSome ↔
    (read? storage path).isSome ∨ ∃ file, .fileReceived file ∈ events ∧ file.path = path
  /-- Nothing that happens later has an effect. -/
  inert : ∀ later, (i.run later).1 = [] ∧ (i.run later).2.receiver = i.receiver

/-- Whatever comes from a relay, in whatever reads and however it ends, the events of a client are a
faithful account of it, as far as the first failure. -/
theorem events_account_for_stream (keeps : Storage.Keeps good read? dir) {storage : σ}
    (sound : good storage) (ownId : String) {steps : List Step} (orderly : Orderly steps)
    (ends : .finish ∈ steps ∨ ∃ reason, .arrive (.failure reason) ∈ steps) :
    (∃ fs e?, Account Frame.defaultLimit (arrivals steps) fs e?) ∧
    ∀ fs e?, Account Frame.defaultLimit (arrivals steps) fs e? →
      Faithful read? ownId storage dir (arrivals steps) fs e?
        ((fresh ownId storage dir).run (steps ++ [.read])).1
        ((fresh ownId storage dir).run (steps ++ [.read])).2 := by
  refine ⟨exists_account Frame.defaultLimit (arrivals steps), fun fs e? account => ?_⟩
  have positive : 0 < Frame.defaultLimit := by decide
  obtain ⟨fs', e?', r, reads, ran⟩ := run_to_end ownId storage dir orderly ends
  obtain ⟨rfl, rfl⟩ := (account.reads positive).unique reads
  have start : Sound good dir [] (fresh ownId storage dir) := ⟨⟨sound, rfl⟩, rfl⟩
  have telling := telling_acceptAll keeps start (fs.map Inbound.envelope)
  rw [ran]
  constructor
  case told => exact ⟨_, telling, rfl⟩
  case once =>
    intro before reason after split
    rcases split_concat split with ⟨rfl, same, -⟩ | ⟨earlier, -, there⟩
    · cases same
      exact ⟨rfl, rfl⟩
    · refine absurd ?_ (telling.not_lost reason)
      rw [told] at there
      rw [there]
      exact List.mem_append_right _ List.mem_cons_self
  case clean =>
    constructor
    · rintro rfl
      cases account with
      | whole lines unfailing => exact ⟨⟨fs, lines⟩, failure?_eq_none.mp unfailing⟩
    · rintro ⟨⟨fs', lines⟩, unfailing⟩
      have whole : Account Frame.defaultLimit (arrivals steps) fs' none :=
        .whole lines (failure?_eq_none.mpr unfailing)
      exact (account.unique positive whole).2
  case announced =>
    intro before file after split
    rcases split_concat split with ⟨-, same, -⟩ | ⟨earlier, -, there⟩
    · cases same
    · have closed : ∀ key, IsOpen [] key → Announced key [] := by
        rintro key ⟨a, chunks, opened⟩
        exact absurd opened not_opened_nil
      exact telling.announced closed there
  case stored =>
    intro path
    have stored := stored_acceptAll keeps start (fs.map Inbound.envelope) path
    simp only [List.mem_append, List.mem_singleton, reduceCtorEq, or_false]
    exact stored
  case inert =>
    intro later
    obtain ⟨r', same⟩ := run_of_stopped (fresh ownId storage dir) fs r later
    rw [same]
    exact ⟨rfl, rfl⟩

end

/-- Bob's own registration comes back to him, then there are a chat and a file of Ann's. -/
def fromAnn : List Envelope :=
  [.registration ⟨"bob", "Bob"⟩, .chat ⟨"ann", some "bob", "look"⟩,
    .announcement ⟨"ann", some "bob", "notes", 2, 1024⟩,
    .chunk ⟨"ann", some "bob", "notes", 0, "aGk=", true⟩]

/-- All of it in two reads, the first of which ends within the chat. -/
def visit : List Step :=
  [.arrive (.bytes ((fromAnn.flatMap Frame.encode).take 80)), .read,
    .arrive (.bytes ((fromAnn.flatMap Frame.encode).drop 80)), .finish]

theorem events_account_for_stream_visit :
    Orderly visit ∧ .finish ∈ visit ∧
      Faithful Memory.read? "bob" Memory.empty "in" (arrivals visit)
        (fromAnn.map fun e => ⟨e, Frame.encode e⟩) none
        ((fresh "bob" Memory.empty "in").run (visit ++ [.read])).1
        ((fresh "bob" Memory.empty "in").run (visit ++ [.read])).2 := by
  have orderly : Orderly visit := rfl
  have ends : .finish ∈ visit := by simp [visit]
  have whole : received (arrivals visit) = fromAnn.flatMap Frame.encode := by
    simp [visit, arrivals, received]
  have fit : ∀ e ∈ fromAnn, (Frame.encode e).length ≤ Frame.defaultLimit := by decide +kernel
  have account : Account Frame.defaultLimit (arrivals visit)
      (fromAnn.map fun e => ⟨e, Frame.encode e⟩) none :=
    .whole (whole ▸ frameLines_encode fit) rfl
  exact ⟨orderly, ends,
    (events_account_for_stream (Memory.keeps "in") trivial "bob" orderly (.inl ends)).2 _ _ account⟩

end Inbox

end Mailroom
