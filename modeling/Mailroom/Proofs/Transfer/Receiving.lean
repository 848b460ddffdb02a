import Mailroom.Proofs.Transfer.Integrity
import Mailroom.Transfer.Receiver

/-!
# Receiving whole files

A receiver answers operations as its table does, and stores what the table completes. If the chunks
of a source come to it in their order, with anything of other transfers in between, then the file
that it stores at the end holds the bytes of the source.
-/

namespace Mailroom

/-- A storage that works for a directory as long as its state is good: it gives the directory and
keeps what is written to any of the paths of received files in it, as `read?` tells. -/
structure Storage.Works {σ : Type} [Storage σ] (good : σ → Prop)
    (read? : σ → (path : String) → Option Bytes) (dir : String) : Prop where
  ensures : ∀ s, good s → (ensureDirectory s dir).1 = .ok () ∧ good (ensureDirectory s dir).2
  writes : ∀ s fromId fileName data path, good s → path = Path.outputPath dir fromId fileName →
    (write s path data).1 = .ok () ∧ good (write s path data).2 ∧
      read? (write s path data).2 path = some data

theorem Memory.works (dir : String) : Storage.Works (fun _ => True) Memory.read? dir where
  ensures _ _ := ⟨rfl, trivial⟩
  writes m _ _ data path _ _ := ⟨rfl, trivial, m.files.get?_insert_self path data⟩

namespace Transfer

/-- An event of a chunk that leads to an error. -/
def Event.isRefusal : Event → Bool
  | .invalidChunk _ _ => true
  | .unknownTransfer _ => true
  | _ => false

/-- What is told of a file with these bytes that was stored in a directory. -/
def ReceivedFile.ofData (dir : String) (key : Key) (data : Bytes) : ReceivedFile :=
  ⟨key.fromId, key.fileName, Path.outputPath dir key.fromId key.fileName, data.length,
    Sha256.hex data⟩

/-- What comes of an operation on a receiver: its result, the events that are logged under its key,
and the storage as it is then. -/
structure Handling (σ : Type) where
  key : Key
  result : Except Error (Option ReceivedFile)
  events : List Event
  storage : σ

variable {σ : Type} {read? : σ → (path : String) → Option Bytes} {dir : String} {key : Key}
  {data : Bytes} {few : Prop} {h : Handling σ} {hs : List (Handling σ)}

/-- Nothing is wrong with a chunk, and if there are few enough, none comes out of order. -/
def Handling.Quiet (few : Prop) (h : Handling σ) : Prop :=
  ∀ e ∈ h.events, e.isRefusal = false ∧ (few → e.isDisorder = false)

/-- The last of these gives a file with these bytes, which the storage has then; the others give
none, and none of them gives an error. -/
structure Delivers (read? : σ → (path : String) → Option Bytes) (dir : String) (key : Key)
    (data : Bytes) (few : Prop) (hs : List (Handling σ)) : Prop where
  received : ∃ before last, hs = before ++ [last] ∧ (∀ h ∈ before, h.result = .ok none) ∧
    last.result = .ok (some (.ofData dir key data)) ∧
    read? last.storage (Path.outputPath dir key.fromId key.fileName) = some data
  quiet : ∀ h ∈ hs, h.Quiet few

theorem Delivers.single (result : h.result = .ok (some (.ofData dir key data)))
    (kept : read? h.storage (Path.outputPath dir key.fromId key.fileName) = some data)
    (quiet : h.Quiet few) : Delivers read? dir key data few [h] where
  received := ⟨[], h, rfl, nofun, result, kept⟩
  quiet q here := by
    obtain rfl := List.mem_singleton.mp here
    exact quiet

theorem Delivers.cons (result : h.result = .ok none) (quiet : h.Quiet few)
    (delivers : Delivers read? dir key data few hs) :
    Delivers read? dir key data few (h :: hs) := by
  obtain ⟨⟨before, last, rfl, earlier, file, kept⟩, others⟩ := delivers
  constructor
  · refine ⟨h :: before, last, rfl, ?_, file, kept⟩
    intro q here
    rcases List.mem_cons.mp here with rfl | later
    · exact result
    · exact earlier q later
  · intro q here
    rcases List.mem_cons.mp here with rfl | later
    · exact quiet
    · exact others q later

namespace Receiver

variable [Storage σ]

def operate (r : Receiver σ) : Operation → Handling σ × Receiver σ
  | .announce a =>
    let (r, events) := r.announce a
    (⟨.ofAnnouncement a, .ok none, events, r.storage⟩, r)
  | .accept c =>
    let (result, r, events) := r.accept c
    (⟨.ofChunk c, result, events, r.storage⟩, r)

/-- What comes of successive operations. -/
def handlings (r : Receiver σ) : List Operation → List (Handling σ)
  | [] => []
  | o :: os => (r.operate o).1 :: (r.operate o).2.handlings os

theorem store_rest (r : Receiver σ) (done : Completed) :
    (r.store done).2 = { r with storage := (r.store done).2.storage } := by
  rw [store]
  split
  · rfl
  · split <;> rfl

/-- What a receiver does with a chunk, by what its table makes of it. -/
theorem accept_cases (r : Receiver σ) (c : Chunk) :
    (∃ e, (r.table.accept c).1 = .error e ∧
      r.accept c = (.error e, { r with table := (r.table.accept c).2.1 }, (r.table.accept c).2.2)) ∨
    ((r.table.accept c).1 = .ok none ∧
      r.accept c = (.ok none, { r with table := (r.table.accept c).2.1 }, (r.table.accept c).2.2)) ∨
    (∃ done, (r.table.accept c).1 = .ok (some done) ∧
      r.accept c = ((store { r with table := (r.table.accept c).2.1 } done).1.map some,
        (store { r with table := (r.table.accept c).2.1 } done).2, (r.table.accept c).2.2)) := by
  rcases accepted : r.table.accept c with ⟨e | _ | done, table, events⟩
  · exact .inl ⟨e, rfl, by rw [accept, accepted]⟩
  · exact .inr (.inl ⟨rfl, by rw [accept, accepted]⟩)
  · exact .inr (.inr ⟨done, rfl, by rw [accept, accepted]⟩)

/-- The table of a receiver takes the same operations. -/
theorem table_accept (r : Receiver σ) (c : Chunk) :
    (r.accept c).2.1.table = (r.table.accept c).2.1 := by
  rcases r.accept_cases c with ⟨e, -, here⟩ | ⟨-, here⟩ | ⟨done, -, here⟩
  · rw [here]
  · rw [here]
  · rw [here, store_rest]

theorem downloadDir_accept (r : Receiver σ) (c : Chunk) :
    (r.accept c).2.1.downloadDir = r.downloadDir := by
  rcases r.accept_cases c with ⟨e, -, here⟩ | ⟨-, here⟩ | ⟨done, -, here⟩
  · rw [here]
  · rw [here]
  · rw [here, store_rest]

/-- What a receiver keeps as it takes operations in. -/
structure Ready (good : σ → Prop) (dir : String) (r : Receiver σ) : Prop where
  sound : good r.storage
  dir_eq : r.downloadDir = dir

variable {good : σ → Prop} {r : Receiver σ} {o : Operation} {os : List Operation}

omit [Storage σ] in
theorem Ready.with_table (ready : Ready good dir r) (t : Table) :
    Ready good dir { r with table := t } := ⟨ready.sound, ready.dir_eq⟩

theorem store_eq (works : Storage.Works good read? dir) (ready : Ready good dir r)
    (done : Completed) :
    ∃ storage, r.store done = (.ok (.ofData dir done.key done.data), { r with storage }) ∧
      good storage ∧
      read? storage (Path.outputPath dir done.key.fromId done.key.fileName) = some done.data := by
  obtain ⟨sound, rfl⟩ := ready
  obtain ⟨made, sound'⟩ := works.ensures r.storage sound
  obtain ⟨written, sound'', kept⟩ :=
    works.writes _ done.key.fromId done.key.fileName done.data _ sound' rfl
  refine ⟨_, ?_, sound'', kept⟩
  rw [store]
  split
  next reason storage failed =>
    rw [failed] at made
    cases made
  next storage made' =>
    rw [made'] at written ⊢
    dsimp only at written ⊢
    rw [outputPath]
    split
    next reason storage' failed =>
      rw [failed] at written
      cases written
    next storage' written' =>
      rw [written']
      rfl

/-- How a receiver follows its table in one operation. -/
structure Follows (good : σ → Prop) (read? : σ → (path : String) → Option Bytes) (dir : String)
    (r : Receiver σ) (o : Operation) : Prop where
  table_eq : (r.operate o).2.table = (r.table.operate o).2
  ready : Ready good dir (r.operate o).2
  key_eq : (r.operate o).1.key = o.key
  events_eq : (r.operate o).1.events = (r.table.operate o).1.events
  nothing : (r.table.operate o).1.result = .ok none → (r.operate o).1.result = .ok none
  stored : ∀ done, (r.table.operate o).1.result = .ok (some done) →
    (r.operate o).1.result = .ok (some (.ofData dir done.key done.data)) ∧
    read? (r.operate o).1.storage (Path.outputPath dir done.key.fromId done.key.fileName) =
      some done.data

theorem follows (works : Storage.Works good read? dir) (ready : Ready good dir r) (o : Operation) :
    Follows good read? dir r o := by
  cases o with
  | announce a => exact ⟨rfl, ready.with_table _, rfl, rfl, fun _ => rfl, nofun⟩
  | accept c =>
    have ready' := ready.with_table (r.table.accept c).2.1
    rcases r.accept_cases c with ⟨e, given, here⟩ | ⟨given, here⟩ | ⟨done, given, here⟩
    · constructor <;> simp [operate, Table.operate, Operation.key, here, given, ready']
    · constructor <;> simp [operate, Table.operate, Operation.key, here, given, ready']
    · obtain ⟨storage, stored, sound, kept⟩ := store_eq works ready' done
      have ready'' : Ready good dir { r with table := (r.table.accept c).2.1, storage } :=
        ⟨sound, ready.dir_eq⟩
      rw [stored] at here
      constructor <;>
        simp [operate, Table.operate, Operation.key, here, given, ready'', Except.map]
      exact kept

/-- Operations of other transfers change nothing for the one that is looked at. -/
theorem handlings_of_own (works : Storage.Works good read? dir) (ready : Ready good dir r)
    {later : List Operation} (own : os.filter (fun o => o.key = key) = o :: later) :
    ∃ (r' : Receiver σ) (os' : List Operation), Ready good dir r' ∧
      r'.table.get? key = r.table.get? key ∧ os'.filter (fun o => o.key = key) = later ∧
      (r.handlings os).filter (fun h => h.key = key) =
        (r'.operate o).1 :: ((r'.operate o).2.handlings os').filter fun h => h.key = key := by
  induction os generalizing r with
  | nil => cases own
  | cons first os ih =>
    have follows := follows works ready first
    by_cases same : first.key = key
    · have shown : (r.operate first).1.key = key := follows.key_eq.trans same
      rw [List.filter_cons_of_pos (by simpa using same)] at own
      obtain ⟨rfl, rest⟩ := List.cons.inj own
      refine ⟨r, os, ready, rfl, rest, ?_⟩
      rw [handlings, List.filter_cons_of_pos (by simpa using shown)]
    · have hidden : (r.operate first).1.key ≠ key := follows.key_eq ▸ same
      have untouched := r.table.get?_operate_of_ne (Ne.symm same)
      rw [List.filter_cons_of_neg (by simpa using same)] at own
      obtain ⟨r', os', ready', found, rest, handled⟩ := ih follows.ready own
      refine ⟨r', os', ready', ?_, rest, ?_⟩
      · rw [found, follows.table_eq, untouched]
      · rw [handlings, List.filter_cons_of_neg (by simpa using hidden), handled]

theorem handlings_of_none (works : Storage.Works good read? dir) (ready : Ready good dir r)
    (nothing : os.filter (fun o => o.key = key) = []) :
    (r.handlings os).filter (fun h => h.key = key) = [] := by
  induction os generalizing r with
  | nil => rfl
  | cons o os ih =>
    have follows := follows works ready o
    have other : o.key ≠ key := by
      simpa using List.filter_eq_nil_iff.mp nothing o List.mem_cons_self
    have hidden : (r.operate o).1.key ≠ key := follows.key_eq ▸ other
    rw [List.filter_cons_of_neg (by simpa using other)] at nothing
    rw [handlings, List.filter_cons_of_neg (by simpa using hidden)]
    exact ih follows.ready nothing

theorem quiet_of_mem {due seq : UInt64} {bytes : Bytes} {e : Event}
    (logged : e ∈ Slot.disorder due seq ++ Slot.appended seq bytes) :
    e.isRefusal = false ∧ (seq = due → e.isDisorder = false) := by
  rw [Slot.disorder, Slot.appended] at logged
  rcases List.mem_append.mp logged with noted | noted
  · split at noted
    · cases noted
    next early =>
      obtain rfl := List.mem_singleton.mp noted
      exact ⟨rfl, fun same => absurd same early⟩
  · split at noted
    · cases noted
    · obtain rfl := List.mem_singleton.mp noted
      exact ⟨rfl, fun _ => rfl⟩

section

variable {receipt : Receipt} {toId : Option String} {seq : UInt64}

theorem operate_more (works : Storage.Works good read? dir) (ready : Ready good dir r)
    (found : r.table.get? key = some receipt) (due : few → seq = receipt.nextSeq)
    (made : .accept (key.chunk toId seq data false) = o) :
    (r.operate o).1.result = .ok none ∧ (r.operate o).1.Quiet few ∧
      (r.operate o).2.table.get? key =
        some ⟨receipt.announcedSize, receipt.data ++ data, seqAfter seq⟩ := by
  have follows := follows works ready o
  have report := r.table.operate_report o
  have after := r.table.get?_operate_self o
  have named : o.key = key := made ▸ rfl
  rw [named, found, ← made, Slot.operate, Slot.accept_more, made] at report after
  refine ⟨follows.nothing (congrArg Report.result report), ?_, ?_⟩
  · intro e logged
    rw [follows.events_eq, congrArg Report.events report] at logged
    obtain ⟨refusal, disorder⟩ := quiet_of_mem logged
    exact ⟨refusal, fun few => disorder (due few)⟩
  · rw [follows.table_eq]
    exact after

theorem operate_last (works : Storage.Works good read? dir) (ready : Ready good dir r)
    (found : r.table.get? key = some receipt) (due : few → seq = receipt.nextSeq)
    (made : .accept (key.chunk toId seq data true) = o) :
    Delivers read? dir key (receipt.data ++ data) few [(r.operate o).1] := by
  have follows := follows works ready o
  have report := r.table.operate_report o
  have named : o.key = key := made ▸ rfl
  rw [named, found, ← made, Slot.operate, Slot.accept_last, made] at report
  obtain ⟨file, kept⟩ := follows.stored _ (congrArg Report.result report)
  apply Delivers.single file kept
  intro e logged
  rw [follows.events_eq, congrArg Report.events report] at logged
  rcases List.mem_append.mp logged with noted | noted
  · obtain ⟨refusal, disorder⟩ := quiet_of_mem noted
    exact ⟨refusal, fun few => disorder (due few)⟩
  · obtain rfl := List.mem_singleton.mp noted
    exact ⟨rfl, fun _ => rfl⟩

end

theorem seqAfter_of_lt {seq : UInt64} (bound : seq.toNat + 1 < UInt64.size) :
    seqAfter seq = seq + 1 ∧ (seq + 1).toNat = seq.toNat + 1 := by
  have following := seqAfter_ofNat bound
  have next : UInt64.ofNat (seq.toNat + 1) = seq + 1 := by
    rw [UInt64.ofNat_add, UInt64.ofNat_toNat]
    rfl
  rw [UInt64.ofNat_toNat, next] at following
  constructor
  · exact following
  · rw [← next, UInt64.toNat_ofNat_of_lt' bound]

/-- An open transfer to which the rest of its chunks come. -/
theorem delivers_chunks (works : Storage.Works good read? dir) (ready : Ready good dir r)
    {receipt : Receipt} {toId : Option String} {seq : UInt64} {rest : Bytes} {chunks : List Chunk}
    (found : r.table.get? key = some receipt) (carries : Carries key toId seq rest chunks)
    (own : os.filter (fun o => o.key = key) = chunks.map .accept)
    (due : few → seq = receipt.nextSeq ∧ seq.toNat + chunks.length ≤ UInt64.size) :
    Delivers read? dir key (receipt.data ++ rest) few
      ((r.handlings os).filter fun h => h.key = key) := by
  induction carries generalizing r receipt os with
  | last seq =>
    obtain ⟨r', os', ready', found', nothing, handled⟩ := handlings_of_own works ready own
    have follows := follows works ready' (.accept (key.chunk toId seq [] true))
    rw [handled, handlings_of_none works follows.ready nothing]
    exact operate_last works ready' (found'.trans found) (fun few => (due few).1) rfl
  | @more seq bytes rest chunks given others ih =>
    obtain ⟨r', os', ready', found', own', handled⟩ := handlings_of_own works ready own
    have follows := follows works ready' (.accept (key.chunk toId seq bytes false))
    obtain ⟨result, quiet, after⟩ :=
      operate_more works ready' (found'.trans found) (fun few => (due few).1) rfl
    rw [handled, ← List.append_assoc]
    refine Delivers.cons result quiet (ih follows.ready after own' fun few => ?_)
    have some := others.length_pos
    have bound := (due few).2
    rw [List.length_cons] at bound
    have inside : seq.toNat + 1 < UInt64.size := by omega
    obtain ⟨following, number⟩ := seqAfter_of_lt inside
    exact ⟨following.symm, by omega⟩

/-- A transfer of which the announcement and all chunks come, whatever was there under its key. -/
theorem delivers_transfer (works : Storage.Works good read? dir) (ready : Ready good dir r)
    {a : Announcement} {toId : Option String} {source : Bytes} {chunks : List Chunk}
    (named : .ofAnnouncement a = key) (carries : Carries key toId 0 source chunks)
    (own : os.filter (fun o => o.key = key) = .announce a :: chunks.map .accept) :
    Delivers read? dir key source (source.length < UInt64.size)
      ((r.handlings os).filter fun h => h.key = key) := by
  obtain ⟨r', os', ready', -, own', handled⟩ := handlings_of_own works ready own
  have follows := follows works ready' (.announce a)
  have report := r'.table.operate_report (.announce a)
  have opened := r'.table.get?_operate_self (.announce a)
  have here : (Operation.announce a).key = key := named
  rw [here, ← follows.table_eq] at opened
  rw [handled]
  apply Delivers.cons
  · rfl
  · intro e logged
    rw [follows.events_eq, report] at logged
    dsimp only [Slot.operate, Slot.announce] at logged
    rcases List.mem_append.mp logged with noted | noted
    · split at noted
      · obtain rfl := List.mem_singleton.mp noted
        exact ⟨rfl, fun _ => rfl⟩
      · cases noted
    · obtain rfl := List.mem_singleton.mp noted
      exact ⟨rfl, fun _ => rfl⟩
  · have many := carries.length_le
    refine delivers_chunks works follows.ready opened carries own' fun few => ⟨rfl, ?_⟩
    rw [UInt64.toNat_zero]
    omega

end Receiver

end Transfer

end Mailroom
