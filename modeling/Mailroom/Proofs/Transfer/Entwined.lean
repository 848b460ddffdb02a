import Mailroom.Proofs.Transfer.Outgoing

/-!
# Two files at the same time

A client may send two files at once. Each call sends its envelopes in their order, and those of the
two calls mix in any way. A receiver tells transfers apart by the sender and the name of the file, so
both files arrive if their names differ, or if one is through before the other is announced, and not
otherwise. Of two transfers with one name that overlap, the first terminal chunk ends what both have
come to, and the other one's has nothing left to end.
-/

namespace Mailroom.Transfer

/-- One of two calls. -/
inductive Run where
  | first
  | second
  deriving DecidableEq

/-- What comes to a receiver, each operation with the call that has sent it. -/
abbrev Feed := List (Run × Operation)

namespace Feed

def sentBy (feed : Feed) (run : Run) : List Operation :=
  (feed.filter fun x => x.1 = run).map Prod.snd

/-- One call is through before the other one begins. -/
def Apart (feed : Feed) : Prop :=
  ∃ run before after, feed = before ++ after ∧ (∀ x ∈ before, x.1 = run) ∧ ∀ x ∈ after, x.1 ≠ run

end Feed

namespace Receiver

variable {σ : Type} [Storage σ]

/-- What comes of the operations that one call has sent. -/
def handlingsOf (r : Receiver σ) (run : Run) : Feed → List (Handling σ)
  | [] => []
  | (sender, o) :: feed =>
    if sender = run then (r.operate o).1 :: (r.operate o).2.handlingsOf run feed
    else (r.operate o).2.handlingsOf run feed

/-- A receiver after what has come to it. -/
def fed (r : Receiver σ) : Feed → Receiver σ
  | [] => r
  | (_, o) :: feed => (r.operate o).2.fed feed

end Receiver

variable {σ : Type} [Storage σ] {good : σ → Prop} {read? : σ → (path : String) → Option Bytes}
  {dir fromId : String} {r : Receiver σ} {feed before after : Feed} {run : Run} {key : Key}
  {o : Operation} {f : Outgoing}

/-- The last chunk is the terminal one. -/
theorem Carries.exists_last {toId : Option String} {seq : UInt64} {source : Bytes}
    {chunks : List Chunk} (carries : Carries key toId seq source chunks) :
    ∃ init n, chunks = init ++ [key.chunk toId n [] true] := by
  induction carries with
  | last seq => exact ⟨[], seq, rfl⟩
  | more given others ih =>
    obtain ⟨init, n, rfl⟩ := ih
    exact ⟨_ :: init, n, rfl⟩

namespace Feed

theorem mem_sentBy : o ∈ feed.sentBy run ↔ (run, o) ∈ feed := by
  simp [sentBy]

theorem sentBy_append (before after : Feed) (run : Run) :
    sentBy (before ++ after) run = sentBy before run ++ sentBy after run := by
  simp [sentBy]

theorem sentBy_cons_self (run : Run) (o : Operation) (feed : Feed) :
    sentBy ((run, o) :: feed) run = o :: sentBy feed run := by
  simp [sentBy]

theorem sentBy_cons_of_ne {other : Run} (differs : other ≠ run) :
    sentBy ((other, o) :: feed) run = sentBy feed run := by
  simp [sentBy, differs]

theorem sentBy_of_none (none : ∀ x ∈ feed, x.1 ≠ run) : feed.sentBy run = [] := by
  rw [sentBy, List.filter_eq_nil_iff.mpr fun x there => by simpa using none x there, List.map_nil]

/-- The last operation of a call, and what comes after it. -/
theorem split_at_last (some : feed.sentBy run ≠ []) :
    ∃ before o after, feed = before ++ (run, o) :: after ∧ ∀ x ∈ after, x.1 ≠ run := by
  obtain ⟨o, sent⟩ := List.exists_mem_of_ne_nil _ some
  have there : (feed.reverse.find? fun x => x.1 = run).isSome := by
    rw [List.find?_isSome]
    exact ⟨(run, o), List.mem_reverse.mpr (mem_sentBy.mp sent), decide_eq_true rfl⟩
  obtain ⟨⟨_, last⟩, found⟩ := Option.isSome_iff_exists.mp there
  obtain ⟨mine, later, earlier, split, others⟩ := List.find?_eq_some_iff_append.mp found
  obtain rfl := of_decide_eq_true mine
  refine ⟨earlier.reverse, last, later.reverse, ?_, fun x among => ?_⟩
  · rw [← List.reverse_reverse feed, split]
    simp
  · simpa using others x (List.mem_reverse.mp among)

/-- Of two calls one ends before the other one has sent its last. -/
theorem exists_end (given : ∀ run, feed.sentBy run ≠ []) :
    ∃ run before o after, feed = before ++ (run, o) :: after ∧ after ≠ [] ∧
      ∀ x ∈ after, x.1 ≠ run := by
  obtain ⟨before, o, after, split, others⟩ := split_at_last (given .first)
  by_cases more : after = []
  · obtain ⟨before', o', after', split', others'⟩ := split_at_last (given .second)
    refine ⟨.second, before', o', after', split', ?_, others'⟩
    rintro rfl
    rw [split, more] at split'
    cases (List.append_inj' split' rfl).2
  · exact ⟨.first, before, o, after, split, more, others⟩

end Feed

/-- Once a file is announced only its chunks are still to come. -/
theorem exists_chunk_of_begun {xs ys : List Operation} {a : Announcement} {chunks : List Chunk}
    (whole : xs ++ ys = .announce a :: chunks.map .accept) (begun : xs ≠ []) (there : o ∈ ys) :
    ∃ c ∈ chunks, o = .accept c := by
  obtain ⟨x, xs, rfl⟩ := List.exists_cons_of_ne_nil begun
  rw [List.cons_append] at whole
  have among : o ∈ chunks.map .accept := by
    rw [← (List.cons.inj whole).2]
    exact List.mem_append_right xs there
  obtain ⟨c, given, rfl⟩ := List.mem_map.mp among
  exact ⟨c, given, rfl⟩

theorem Run.eq_of_ne {run run' other : Run} (differs : run' ≠ run) (differs' : other ≠ run) :
    other = run' := by
  cases run <;> cases run' <;> cases other <;> simp_all

namespace Receiver

theorem key_operate (r : Receiver σ) (o : Operation) : (r.operate o).1.key = o.key := by
  cases o <;> rfl

theorem handlingsOf_append (r : Receiver σ) (run : Run) (before after : Feed) :
    r.handlingsOf run (before ++ after) =
      r.handlingsOf run before ++ (r.fed before).handlingsOf run after := by
  induction before generalizing r with
  | nil => rfl
  | cons x before ih =>
    obtain ⟨sender, o⟩ := x
    rw [List.cons_append, handlingsOf, handlingsOf, fed, ih]
    split
    · rw [List.cons_append]
    · rfl

theorem handlingsOf_of_none (none : ∀ x ∈ feed, x.1 ≠ run) : r.handlingsOf run feed = [] := by
  induction feed generalizing r with
  | nil => rfl
  | cons x feed ih =>
    rw [handlingsOf, if_neg (none x List.mem_cons_self)]
    exact ih fun y later => none y (List.mem_cons_of_mem x later)

theorem ready_fed (works : Storage.Works good read? dir) (ready : Ready good dir r) (feed : Feed) :
    Ready good dir (r.fed feed) := by
  induction feed generalizing r with
  | nil => exact ready
  | cons x feed ih => exact ih (follows works ready x.2).ready

/-- Where the key tells a call from the other one, the call is told apart. -/
theorem handlingsOf_eq_filter (separate : ∀ x ∈ feed, x.2.key = key ↔ x.1 = run) :
    r.handlingsOf run feed = (r.handlings (feed.map Prod.snd)).filter fun h => h.key = key := by
  induction feed generalizing r with
  | nil => rfl
  | cons x feed ih =>
    obtain ⟨sender, o⟩ := x
    have here : o.key = key ↔ sender = run := separate (sender, o) List.mem_cons_self
    have rest := @ih (r.operate o).2 fun y later => separate y (List.mem_cons_of_mem _ later)
    rw [handlingsOf, List.map_cons, handlings, rest]
    by_cases mine : sender = run
    · have shown : (r.operate o).1.key = key := (r.key_operate o).trans (here.mpr mine)
      rw [if_pos mine, List.filter_cons_of_pos (by simpa using shown)]
    · have hidden : (r.operate o).1.key ≠ key := fun same =>
        mine (here.mp ((r.key_operate o).symm.trans same))
      rw [if_neg mine, List.filter_cons_of_neg (by simpa using hidden)]

/-- The file of a call that is told apart by its key arrives. -/
theorem delivers_of_separate (works : Storage.Works good read? dir) (ready : Ready good dir r)
    (separate : ∀ x ∈ feed, x.2.key = f.key fromId ↔ x.1 = run)
    (sent : feed.sentBy run = (f.envelopes fromId).filterMap Operation.ofEnvelope?) :
    Delivers read? dir (f.key fromId) f.data (f.data.length < UInt64.size)
      (r.handlingsOf run feed) := by
  have own : (feed.map Prod.snd).filter (fun o => o.key = f.key fromId) = feed.sentBy run := by
    rw [Feed.sentBy, List.filter_map]
    congr 1
    refine List.filter_congr fun x there => ?_
    simp only [Function.comp_apply, separate x there]
  obtain ⟨a, chunks, operations, named, carries⟩ := f.operations_eq fromId
  rw [sent, operations] at own
  rw [handlingsOf_eq_filter separate]
  exact delivers_transfer works ready named carries own

/-- After a terminal chunk no transfer is open under its key. -/
theorem get?_of_last (works : Storage.Works good read? dir) (ready : Ready good dir r)
    {toId : Option String} {seq : UInt64} :
    (r.operate (.accept (key.chunk toId seq [] true))).2.table.get? key = none := by
  have follows := follows works ready (.accept (key.chunk toId seq [] true))
  have after := r.table.get?_operate_self (.accept (key.chunk toId seq [] true))
  have named : (Operation.accept (key.chunk toId seq [] true)).key = key := rfl
  rw [named, Slot.operate] at after
  rw [follows.table_eq, after]
  cases r.table.get? key with
  | none => rfl
  | some receipt => rw [Slot.accept_last]

/-- A chunk of no open transfer is refused. -/
theorem result_of_closed {c : Chunk} (closed : r.table.get? (.ofChunk c) = none) :
    ∃ e, (r.operate (.accept c)).1.result = .error e := by
  have refused : r.table.accept c =
      (.error (.unregisteredChunk (.ofChunk c) c.seq), r.table, [.unknownTransfer c.seq]) := by
    rw [Table.accept, closed]
  refine ⟨.unregisteredChunk (.ofChunk c) c.seq, ?_⟩
  rw [operate, accept, refused]

end Receiver

omit [Storage σ] in
/-- When a file arrives nothing is refused. -/
theorem Delivers.ne_error {data : Bytes} {few : Prop} {hs : List (Handling σ)} {h : Handling σ}
    {e : Error} (delivers : Delivers read? dir key data few hs) (there : h ∈ hs) :
    h.result ≠ .error e := by
  obtain ⟨⟨earlier, last, rfl, none, file, -⟩, -⟩ := delivers
  intro refused
  obtain before | same := List.mem_append.mp there
  · rw [none h before] at refused
    cases refused
  · obtain rfl := List.mem_singleton.mp same
    rw [file] at refused
    cases refused

namespace Receiver

variable {files : Run → Outgoing}

/-- Two calls send their files, each all of its envelopes in their order. -/
def Sends (files : Run → Outgoing) (fromId : String) (feed : Feed) : Prop :=
  ∀ run, feed.sentBy run = ((files run).envelopes fromId).filterMap Operation.ofEnvelope?

/-- The file of a call arrives. -/
abbrev Arrives (read? : σ → (path : String) → Option Bytes) (r : Receiver σ) (fromId : String)
    (f : Outgoing) (run : Run) (feed : Feed) : Prop :=
  Delivers read? r.downloadDir (f.key fromId) f.data (f.data.length < UInt64.size)
    (r.handlingsOf run feed)

theorem arrives_of_names_ne (works : Storage.Works good read? r.downloadDir)
    (sound : good r.storage) (sends : Sends files fromId feed)
    (differ : (files .first).name ≠ (files .second).name) (run : Run) :
    r.Arrives read? fromId (files run) run feed := by
  have keys : ∀ run', (files run').key fromId = (files run).key fromId → run' = run := by
    intro run' same
    have names : (files run').name = (files run).name := congrArg Key.fileName same
    cases run <;> cases run'
    · rfl
    · exact absurd names.symm differ
    · exact absurd names differ
    · rfl
  refine delivers_of_separate works ⟨sound, rfl⟩ (fun x there => ?_) (sends run)
  obtain ⟨run', o⟩ := x
  have mine : o ∈ feed.sentBy run' := Feed.mem_sentBy.mpr there
  rw [sends run'] at mine
  rw [Outgoing.key_of_mem mine]
  constructor
  · exact keys run'
  · rintro rfl
    rfl

/-- What one call has sent is told apart from nothing if it comes alone. -/
theorem delivers_of_alone (works : Storage.Works good read? dir) (ready : Ready good dir r)
    (alone : ∀ x ∈ feed, x.1 = run)
    (sent : feed.sentBy run = (f.envelopes fromId).filterMap Operation.ofEnvelope?) :
    Delivers read? dir (f.key fromId) f.data (f.data.length < UInt64.size)
      (r.handlingsOf run feed) := by
  refine delivers_of_separate works ready (fun x there => ?_) sent
  have mine : x.2 ∈ feed.sentBy run := Feed.mem_sentBy.mpr (alone x there ▸ there)
  rw [sent] at mine
  exact iff_of_true (Outgoing.key_of_mem mine) (alone x there)

theorem arrives_of_apart (works : Storage.Works good read? r.downloadDir)
    (sound : good r.storage) (sends : Sends files fromId feed) (apart : feed.Apart) (run : Run) :
    r.Arrives read? fromId (files run) run feed := by
  obtain ⟨early, before, after, rfl, mine, others⟩ := apart
  have ready : Ready good r.downloadDir r := ⟨sound, rfl⟩
  have sent := sends run
  rw [Feed.sentBy_append] at sent
  rw [Arrives, handlingsOf_append]
  by_cases same : run = early
  · subst same
    rw [Feed.sentBy_of_none others, List.append_nil] at sent
    rw [handlingsOf_of_none others, List.append_nil]
    exact delivers_of_alone works ready mine sent
  · have none : ∀ x ∈ before, x.1 ≠ run := fun x there => mine x there ▸ Ne.symm same
    have all : ∀ x ∈ after, x.1 = run := fun x there => Run.eq_of_ne same (others x there)
    rw [Feed.sentBy_of_none none, List.nil_append] at sent
    rw [handlingsOf_of_none none, List.nil_append]
    exact delivers_of_alone works (ready_fed works ready before) all sent

/-- A call that has begun before the other one ends, and ends after it, is refused a chunk. -/
theorem refused_of_overlap (works : Storage.Works good read? dir) (ready : Ready good dir r)
    {other : Run} {toId : Option String} {seq : UInt64} {c : Chunk} (differs : run ≠ other)
    (named : Key.ofChunk c = key) :
    ∃ h ∈ r.handlingsOf run (before ++ (other, .accept (key.chunk toId seq [] true)) ::
      (run, .accept c) :: after), ∃ e, h.result = .error e := by
  subst named
  have closed : ((r.fed before).operate
      (.accept ((Key.ofChunk c).chunk toId seq [] true))).2.table.get? (.ofChunk c) = none :=
    get?_of_last works (ready_fed works ready before)
  refine ⟨_, ?_, result_of_closed closed⟩
  rw [handlingsOf_append, handlingsOf, if_neg (Ne.symm differs), handlingsOf, if_pos rfl]
  exact List.mem_append_right _ List.mem_cons_self

/-- If both files arrive under one name, the calls have not overlapped. -/
theorem apart_of_arrives (works : Storage.Works good read? r.downloadDir)
    (sound : good r.storage) (sends : Sends files fromId feed)
    (same : (files .first).name = (files .second).name)
    (arrive : ∀ run, r.Arrives read? fromId (files run) run feed) : feed.Apart := by
  have keys : ∀ run run', (files run).key fromId = (files run').key fromId := by
    intro run run'
    cases run <;> cases run' <;> simp [Outgoing.key, same]
  have given : ∀ run, feed.sentBy run ≠ [] := by
    intro run none
    obtain ⟨a, chunks, operations, -⟩ := (files run).operations_eq fromId
    rw [sends run, operations] at none
    cases none
  obtain ⟨early, before, last, after, rfl, more, others⟩ := Feed.exists_end given
  by_cases begun : ∃ x ∈ before, x.1 ≠ early
  · obtain ⟨⟨_, first⟩, there, differs⟩ := begun
    obtain ⟨⟨late, next⟩, after, rfl⟩ := List.exists_cons_of_ne_nil more
    obtain rfl := Run.eq_of_ne differs (others _ List.mem_cons_self)
    -- the last operation of the call that ends first is its terminal chunk
    obtain ⟨a, chunks, operations, -, carries⟩ := (files early).operations_eq fromId
    obtain ⟨init, n, rfl⟩ := carries.exists_last
    have ended := sends early
    rw [operations, Feed.sentBy_append, Feed.sentBy_cons_self, Feed.sentBy_of_none others,
      List.map_append, ← List.cons_append] at ended
    obtain rfl := List.singleton_inj.mp (List.append_inj' ended rfl).2
    -- the next one is a chunk of the other call, which was announced before
    obtain ⟨a', chunks', operations', -, carries'⟩ := (files late).operations_eq fromId
    have whole := sends late
    rw [operations', Feed.sentBy_append, Feed.sentBy_cons_of_ne (Ne.symm differs),
      Feed.sentBy_cons_self] at whole
    have earlier : Feed.sentBy before late ≠ [] :=
      List.ne_nil_of_mem (Feed.mem_sentBy.mpr there)
    obtain ⟨c, among, rfl⟩ := exists_chunk_of_begun whole earlier List.mem_cons_self
    have named := (carries'.key_of_mem among).trans (keys late early)
    obtain ⟨h, made, e, refused⟩ := refused_of_overlap works ⟨sound, rfl⟩ differs named
    exact absurd refused ((arrive late).ne_error made)
  · refine ⟨early, before ++ [(early, last)], after, by simp, fun x there => ?_, others⟩
    obtain earlier | same := List.mem_append.mp there
    · exact Decidable.not_not.mp fun differs => begun ⟨x, earlier, differs⟩
    · rw [List.mem_singleton.mp same]

/-- Of two files that a client sends at the same time, both arrive exactly if they have different
names or one call is through before the other one begins. What comes to the receiver are all envelopes
of both calls, those of each call in their order; whatever else the receiver has open makes no
difference. -/
theorem interleaved_files_arrive_iff (works : Storage.Works good read? r.downloadDir)
    (sound : good r.storage) (sends : Sends files fromId feed) :
    (∀ run, r.Arrives read? fromId (files run) run feed) ↔
      (files .first).name ≠ (files .second).name ∨ feed.Apart := by
  constructor
  · intro arrive
    by_cases same : (files .first).name = (files .second).name
    · exact .inr (apart_of_arrives works sound sends same arrive)
    · exact .inl same
  · rintro (differ | apart) run
    · exact arrives_of_names_ne works sound sends differ run
    · exact arrives_of_apart works sound sends apart run

/-- Two calls that take turns. -/
def alternating (files : Run → Outgoing) (fromId : String) : Feed :=
  (((files .first).envelopes fromId).zip ((files .second).envelopes fromId)).flatMap fun (e, e') =>
    ((Operation.ofEnvelope? e).map (Run.first, ·)).toList ++
      ((Operation.ofEnvelope? e').map (Run.second, ·)).toList

/-- Two files with these names, one byte each. -/
def named (name name' : String) : Run → Outgoing
  | .first => ⟨name, some "bob", 1, [[1]]⟩
  | .second => ⟨name', some "bob", 1, [[2]]⟩

theorem interleaved_files_arrive_iff_alternating :
    Arrives Memory.read? (.fresh Memory.empty "downloads") "ann" (named "notes" "tunes" .first)
        .first (alternating (named "notes" "tunes") "ann") ∧
      Arrives Memory.read? (.fresh Memory.empty "downloads") "ann" (named "notes" "tunes" .second)
        .second (alternating (named "notes" "tunes") "ann") := by
  have sends : Sends (named "notes" "tunes") "ann" (alternating (named "notes" "tunes") "ann") := by
    intro run
    cases run <;> decide +kernel
  have arrive := (interleaved_files_arrive_iff (r := .fresh Memory.empty "downloads")
    (Memory.works "downloads") trivial sends).mpr (.inl (by decide))
  exact ⟨arrive .first, arrive .second⟩

/-- Two files with the same name, one byte each, do not both arrive if the calls take turns. -/
theorem not_all_interleaved_files_arrive :
    ¬ ∀ (files : Run → Outgoing) (fromId : String) (feed : Feed) (dir : String),
      Sends files fromId feed →
      ∀ run, Arrives Memory.read? (.fresh Memory.empty dir) fromId (files run) run feed := by
  intro all
  have sends : Sends (named "notes" "notes") "ann" (alternating (named "notes" "notes") "ann") := by
    intro run
    cases run <;> decide +kernel
  have arrives := all (named "notes" "notes") "ann" _ "downloads" sends .second
  have refused : (((fresh Memory.empty "downloads").handlingsOf .second
      (alternating (named "notes" "notes") "ann")).map Handling.result)[2]? =
        some (.error (.unregisteredChunk ⟨"ann", "notes"⟩ 1)) := by decide +kernel
  rw [List.getElem?_map] at refused
  obtain ⟨h, there, error⟩ := Option.map_eq_some_iff.mp refused
  exact arrives.ne_error (List.mem_of_getElem? there) error

end Receiver

end Mailroom.Transfer
