import Mailroom.Client.Inbox
import Mailroom.Proofs.Transfer.Storing

/-!
# What a client is told of an envelope

An envelope has one event at most. Which one it is for a chunk depends on the announcements and
chunks before it, and on these alone. A file that is received was announced, and there are files in
the storage where the events say so.
-/

namespace Mailroom

open Transfer

/-- A storage that works for a directory and in which all other files stay as they are when one is
written. -/
structure Storage.Keeps {σ : Type} [Storage σ] (good : σ → Prop)
    (read? : σ → (path : String) → Option Bytes) (dir : String) : Prop
    extends Storage.Works good read? dir where
  ensures_same : ∀ s path, good s → read? (ensureDirectory s dir).2 path = read? s path
  writes_same : ∀ s fromId fileName data path, good s →
    path ≠ Path.outputPath dir fromId fileName →
    read? (write s (Path.outputPath dir fromId fileName) data).2 path = read? s path

theorem Memory.keeps (dir : String) : Storage.Keeps (fun _ => True) Memory.read? dir where
  toWorks := Memory.works dir
  ensures_same _ _ _ := rfl
  writes_same m _ _ data _ _ apart := m.read?_put_of_ne data apart

/-- What a client with this id and download directory is told of an envelope, if these operations
on files came before it. -/
inductive Tells (ownId dir : String) (os : List Operation) : Envelope → Option ClientEvent → Prop
  | own {identity : Identity} (own : identity.id = ownId) :
      Tells ownId dir os (.registration identity) none
  | joined {identity : Identity} (other : identity.id ≠ ownId) :
      Tells ownId dir os (.registration identity) (some (.peerJoined identity))
  | chat (chat : Chat) : Tells ownId dir os (.chat chat) (some (.chat chat))
  | incoming (announcement : Announcement) :
      Tells ownId dir os (.announcement announcement) (some (.fileIncoming announcement))
  | received {chunk : Chunk} {data : Bytes} (finishes : Finishes os chunk data) :
      Tells ownId dir os (.chunk chunk)
        (some (.fileReceived (.ofData dir (.ofChunk chunk) data)))
  | failed {chunk : Chunk} {e : Transfer.Error}
      (passes : Passes os chunk (.error e : Except Transfer.Error (Option ReceivedFile))) :
      Tells ownId dir os (.chunk chunk) (some (.transferFailed e))
  | nothing {chunk : Chunk}
      (passes : Passes os chunk (.ok none : Except Transfer.Error (Option ReceivedFile))) :
      Tells ownId dir os (.chunk chunk) none

/-- What a client is told of successive envelopes. -/
inductive Telling (ownId dir : String) :
    List Operation → List Envelope → List ClientEvent → Prop
  | nil (os : List Operation) : Telling ownId dir os [] []
  | cons {os : List Operation} {e : Envelope} {es : List Envelope} {event? : Option ClientEvent}
      {events : List ClientEvent} (tells : Tells ownId dir os e event?)
      (others : Telling ownId dir (os ++ (Operation.ofEnvelope? e).toList) es events) :
      Telling ownId dir os (e :: es) (event?.toList ++ events)

/-- A file of this transfer was announced, and none was received of it since. -/
def Announced (key : Key) (events : List ClientEvent) : Prop :=
  ∃ before a after, events = before ++ .fileIncoming a :: after ∧ .ofAnnouncement a = key ∧
    ∀ file, .fileReceived file ∈ after → ⟨file.fromId, file.fileName⟩ ≠ key

section

variable {ownId dir : String} {os : List Operation} {e : Envelope} {es : List Envelope}
  {event? : Option ClientEvent} {past events before after : List ClientEvent} {key : Key}
  {file : ReceivedFile}

theorem Announced.append (announced : Announced key past)
    (others : ∀ file, .fileReceived file ∈ events → ⟨file.fromId, file.fileName⟩ ≠ key) :
    Announced key (past ++ events) := by
  obtain ⟨before, a, after, rfl, named, none⟩ := announced
  refine ⟨before, a, after ++ events, by simp, named, ?_⟩
  intro file here
  rcases List.mem_append.mp here with earlier | later
  · exact none file earlier
  · exact others file later

/-- A transfer that is open after an envelope was open before it, or the envelope announces it. What
is told of the envelope is not a file of this transfer. -/
theorem Tells.of_isOpen (tells : Tells ownId dir os e event?)
    (isOpen : IsOpen (os ++ (Operation.ofEnvelope? e).toList) key) :
    (∃ a, event? = some (.fileIncoming a) ∧ .ofAnnouncement a = key) ∨
      IsOpen os key ∧ ∀ file, event? = some (.fileReceived file) →
        ⟨file.fromId, file.fileName⟩ ≠ key := by
  obtain ⟨a, chunks, opened⟩ := isOpen
  cases tells with
  | own | joined | chat =>
    have same : Opened (os ++ []) key a chunks := opened
    rw [List.append_nil] at same
    exact .inr ⟨⟨a, chunks, same⟩, nofun⟩
  | incoming announcement =>
    by_cases same : (Operation.announce announcement).key = key
    · exact .inl ⟨announcement, rfl, same⟩
    · exact .inr ⟨⟨a, chunks, (opened_concat_of_ne same).mp opened⟩, nofun⟩
  | @received chunk data finishes =>
    by_cases same : (Operation.accept chunk).key = key
    · obtain ⟨notLast, -⟩ := (opened_concat_accept same).mp opened
      exact absurd (finishes.1.symm.trans notLast) nofun
    · refine .inr ⟨⟨a, chunks, (opened_concat_of_ne same).mp opened⟩, ?_⟩
      rintro file ⟨⟩
      exact same
  | @failed chunk | @nothing chunk =>
    by_cases same : (Operation.accept chunk).key = key
    · obtain ⟨-, earlier, -, opened⟩ := (opened_concat_accept same).mp opened
      exact .inr ⟨⟨a, earlier, opened⟩, nofun⟩
    · exact .inr ⟨⟨a, chunks, (opened_concat_of_ne same).mp opened⟩, nofun⟩

theorem Tells.announced (tells : Tells ownId dir os e event?)
    (known : ∀ key, IsOpen os key → Announced key past)
    (isOpen : IsOpen (os ++ (Operation.ofEnvelope? e).toList) key) :
    Announced key (past ++ event?.toList) := by
  rcases tells.of_isOpen isOpen with ⟨a, rfl, named⟩ | ⟨isOpen, others⟩
  · exact ⟨past, a, [], rfl, named, nofun⟩
  · refine (known key isOpen).append fun file here => others file ?_
    exact Option.mem_toList.mp here

/-- A file that a client is told of was announced to it. -/
theorem Telling.announced (telling : Telling ownId dir os es events)
    (known : ∀ key, IsOpen os key → Announced key past)
    (split : events = before ++ .fileReceived file :: after) :
    Announced ⟨file.fromId, file.fileName⟩ (past ++ before) := by
  induction telling generalizing past before with
  | nil => simp at split
  | @cons os e es event? events tells others ih =>
    have known' : ∀ key, IsOpen (os ++ (Operation.ofEnvelope? e).toList) key →
        Announced key (past ++ event?.toList) := fun key => tells.announced known
    cases event? with
    | none =>
      rw [Option.toList_none, List.append_nil] at known'
      exact ih known' split
    | some event =>
      cases before with
      | nil =>
        obtain ⟨rfl, -⟩ := List.cons.inj split
        cases tells with
        | received finishes =>
          obtain ⟨-, -, a, chunks, opened, -⟩ := finishes
          rw [List.append_nil]
          exact known _ ⟨a, chunks, opened⟩
      | cons first before =>
        obtain ⟨rfl, rest⟩ := List.cons.inj split
        have later := ih known' rest
        rwa [Option.toList_some, List.append_assoc] at later

/-- No envelope tells of the end of the connection. -/
theorem Telling.not_lost (telling : Telling ownId dir os es events) (reason : Option FrameError) :
    .connectionLost reason ∉ events := by
  induction telling with
  | nil => exact List.not_mem_nil
  | cons tells others ih =>
    intro here
    rcases List.mem_append.mp here with now | later
    · cases tells <;> simp at now
    · exact ih later

end

section

variable {σ : Type} [Storage σ] {good : σ → Prop} {read? : σ → (path : String) → Option Bytes}
  {dir : String} {r : Receiver σ}

/-- Storing a file leaves those at other paths as they were. -/
theorem Transfer.Receiver.read?_store_of_ne (keeps : Storage.Keeps good read? dir)
    (ready : Ready good dir r) (done : Completed) {path : String}
    (apart : path ≠ Path.outputPath dir done.key.fromId done.key.fileName) :
    read? (r.store done).2.storage path = read? r.storage path := by
  obtain ⟨sound, rfl⟩ := ready
  obtain ⟨made, sound'⟩ := keeps.ensures r.storage sound
  have same := keeps.ensures_same r.storage path sound
  have same' := keeps.writes_same _ done.key.fromId done.key.fileName done.data path sound' apart
  rw [store]
  split
  next reason storage failed =>
    rw [failed] at made
    cases made
  next storage ensured =>
    rw [ensured] at same same'
    rw [← same, ← same']
    dsimp only
    rw [outputPath]
    split <;> next written => rw [written]

end

namespace Inbox

variable {σ : Type}

/-- Acts on successive envelopes. -/
def acceptAll [Storage σ] (i : Inbox σ) : List Envelope → List ClientEvent × Inbox σ
  | [] => ([], i)
  | e :: es =>
    ((i.accept e).1.toList ++ ((i.accept e).2.acceptAll es).1, ((i.accept e).2.acceptAll es).2)

section

variable [Storage σ] {good : σ → Prop} {read? : σ → (path : String) → Option Bytes} {dir : String}
  {i : Inbox σ} {os : List Operation} {fs : List Inbound} {x : FrameReader}

theorem acceptAll_concat (i : Inbox σ) (es : List Envelope) (e : Envelope) :
    i.acceptAll (es ++ [e]) =
      ((i.acceptAll es).1 ++ ((i.acceptAll es).2.accept e).1.toList,
        ((i.acceptAll es).2.accept e).2) := by
  induction es generalizing i with
  | nil => simp [acceptAll]
  | cons first es ih => rw [List.cons_append, acceptAll, ih, acceptAll, List.append_assoc]

/-- A receiver with a working storage that has taken these operations. -/
structure Sound (good : σ → Prop) (dir : String) (os : List Operation) (i : Inbox σ) : Prop where
  ready : Receiver.Ready good dir i.receiver
  table_eq : i.receiver.table = Table.empty.after os

/-- What comes of an envelope. -/
structure Takes (good : σ → Prop) (read? : σ → (path : String) → Option Bytes) (dir : String)
    (os : List Operation) (i : Inbox σ) (e : Envelope) : Prop where
  tells : Tells i.ownId dir os e (i.accept e).1
  sound : Sound good dir (os ++ (Operation.ofEnvelope? e).toList) (i.accept e).2
  stored : ∀ path, (read? (i.accept e).2.receiver.storage path).isSome ↔
    (read? i.receiver.storage path).isSome ∨
      ∃ file, (i.accept e).1 = some (.fileReceived file) ∧ file.path = path

theorem takes_of_untouched {e : Envelope} (sound : Sound good dir os i)
    (noFile : Operation.ofEnvelope? e = none) (same : (i.accept e).2 = i)
    (tells : Tells i.ownId dir os e (i.accept e).1)
    (other : ∀ file, (i.accept e).1 ≠ some (.fileReceived file)) :
    Takes good read? dir os i e where
  tells := tells
  sound := by
    rw [noFile, Option.toList_none, List.append_nil, same]
    exact sound
  stored path := by
    rw [same]
    simp [other]

/-- How a client answers a chunk, by how its receiver does. -/
theorem accept_chunk {result : Except Transfer.Error (Option ReceivedFile)} {chunk : Chunk} :
    (i.receiver.accept chunk).1 = result →
    (i.accept (.chunk chunk)).1 = match result with
      | .ok none => none
      | .ok (some file) => some (.fileReceived file)
      | .error reason => some (.transferFailed reason) := by
  rintro rfl
  rfl

theorem table_accept_chunk (sound : Sound good dir os i) (chunk : Chunk) :
    (i.accept (.chunk chunk)).2.receiver.table = Table.empty.after (os ++ [.accept chunk]) := by
  rw [Table.after_concat, ← sound.table_eq]
  exact i.receiver.table_accept chunk

theorem takes_chunk (keeps : Storage.Keeps good read? dir) (sound : Sound good dir os i)
    (chunk : Chunk) : Takes good read? dir os i (.chunk chunk) := by
  have table_eq := table_accept_chunk sound chunk
  have dir_eq := (i.receiver.downloadDir_accept chunk).trans sound.ready.dir_eq
  by_cases finishes : ∃ data, Finishes os chunk data
  · obtain ⟨data, finishes⟩ := finishes
    obtain ⟨size, table, answered, rest⟩ := Receiver.accept_eq_store sound.table_eq finishes
    have ready : Receiver.Ready good dir { i.receiver with table } :=
      ⟨sound.ready.sound, sound.ready.dir_eq⟩
    obtain ⟨storage, stored, good', kept⟩ :=
      Receiver.store_eq keeps.toWorks ready ⟨.ofChunk chunk, size, data⟩
    rw [stored] at answered
    have there : (i.accept (.chunk chunk)).2.receiver.storage = storage := by
      rw [stored] at rest
      exact congrArg Receiver.storage rest
    have event := accept_chunk answered
    dsimp only [Except.map] at event
    constructor
    case tells =>
      rw [event]
      exact .received finishes
    case sound => exact ⟨⟨there ▸ good', dir_eq⟩, table_eq⟩
    case stored =>
      intro path
      rw [event, there]
      by_cases here : path = Path.outputPath dir chunk.fromId chunk.fileName
      · subst here
        exact iff_of_true (Option.isSome_of_eq_some kept) (.inr ⟨_, rfl, rfl⟩)
      · have same := Receiver.read?_store_of_ne keeps ready ⟨.ofChunk chunk, size, data⟩ here
        rw [stored] at same
        dsimp only at same
        rw [same]
        refine ⟨.inl, ?_⟩
        rintro (before | ⟨file, ⟨⟩, there⟩)
        · exact before
        · exact absurd there.symm here
  · obtain ⟨untouched, passes⟩ :=
      Receiver.accept_of_not_finishes sound.table_eq (not_exists.mp finishes)
    have there : (i.accept (.chunk chunk)).2.receiver.storage = i.receiver.storage := untouched
    have same : Sound good dir (os ++ [.accept chunk]) (i.accept (.chunk chunk)).2 :=
      ⟨⟨there ▸ sound.ready.sound, dir_eq⟩, table_eq⟩
    generalize answered : (i.receiver.accept chunk).1 = result at passes
    have event := accept_chunk answered
    have tells : Tells i.ownId dir os (.chunk chunk) (i.accept (.chunk chunk)).1 ∧
        ∀ file, (i.accept (.chunk chunk)).1 ≠ some (.fileReceived file) := by
      rw [event]
      cases passes with
      | unregistered closed => exact ⟨.failed (.unregistered closed), nofun⟩
      | invalid isOpen undecodable => exact ⟨.failed (.invalid isOpen undecodable), nofun⟩
      | more isOpen decodes notLast => exact ⟨.nothing (.more isOpen decodes notLast), nofun⟩
    refine ⟨tells.1, same, fun path => ?_⟩
    rw [there]
    simp [tells.2]

theorem takes (keeps : Storage.Keeps good read? dir) (sound : Sound good dir os i) (e : Envelope) :
    Takes good read? dir os i e := by
  cases e with
  | registration identity =>
    by_cases own : identity.id = i.ownId
    · have event : (i.accept (.registration identity)).1 = none := if_pos own
      refine takes_of_untouched sound rfl rfl ?_ ?_
      · rw [event]
        exact .own own
      · rw [event]
        exact nofun
    · have event : (i.accept (.registration identity)).1 = some (.peerJoined identity) := if_neg own
      refine takes_of_untouched sound rfl rfl ?_ ?_
      · rw [event]
        exact .joined own
      · rw [event]
        exact nofun
  | chat chat => exact takes_of_untouched sound rfl rfl (.chat chat) nofun
  | announcement announcement =>
    constructor
    case tells => exact .incoming announcement
    case sound =>
      refine ⟨⟨sound.ready.sound, sound.ready.dir_eq⟩, ?_⟩
      have after := Table.empty.after_concat os (.announce announcement)
      rw [← sound.table_eq] at after
      exact after.symm
    case stored =>
      intro path
      refine ⟨.inl, ?_⟩
      rintro (there | ⟨file, ⟨⟩, -⟩)
      exact there
  | chunk chunk => exact takes_chunk keeps sound chunk

theorem ownId_accept (i : Inbox σ) (e : Envelope) : (i.accept e).2.ownId = i.ownId := by
  cases e <;> rfl

theorem isConnected_accept (i : Inbox σ) (e : Envelope) :
    (i.accept e).2.isConnected = i.isConnected := by
  cases e <;> rfl

theorem isConnected_acceptAll (i : Inbox σ) (es : List Envelope) :
    (i.acceptAll es).2.isConnected = i.isConnected := by
  induction es generalizing i with
  | nil => rfl
  | cons e es ih => exact (ih (i.accept e).2).trans (i.isConnected_accept e)

theorem telling_acceptAll (keeps : Storage.Keeps good read? dir) (sound : Sound good dir os i)
    (es : List Envelope) : Telling i.ownId dir os es (i.acceptAll es).1 := by
  induction es generalizing i os with
  | nil => exact .nil os
  | cons e es ih =>
    obtain ⟨tells, sound', -⟩ := takes keeps sound e
    have others := ih sound'
    rw [ownId_accept] at others
    exact .cons tells others

/-- After some envelopes there is a file where there was one before, and where one was told of. -/
theorem stored_acceptAll (keeps : Storage.Keeps good read? dir) (sound : Sound good dir os i)
    (es : List Envelope) (path : String) :
    (read? (i.acceptAll es).2.receiver.storage path).isSome ↔
      (read? i.receiver.storage path).isSome ∨
        ∃ file, .fileReceived file ∈ (i.acceptAll es).1 ∧ file.path = path := by
  induction es generalizing i os with
  | nil => simp [acceptAll]
  | cons e es ih =>
    obtain ⟨-, sound', stored⟩ := takes keeps sound e
    rw [acceptAll, ih sound', stored, or_assoc]
    simp only [List.mem_append, Option.mem_toList, or_and_right, exists_or]

end

end Inbox

end Mailroom
