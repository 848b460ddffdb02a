import Mailroom.Proofs.Client.Telling
import Mailroom.Proofs.Path.Downloads

/-!
# Files that are stored over others

A receiver stores a file over another one exactly when the two meet, whoever has sent them. Until
then a file stays as it was stored, whatever else arrives.
-/

namespace Mailroom.Transfer.Receiver

section

variable {σ : Type} [Storage σ] {good : σ → Prop} {read? : σ → (path : String) → Option Bytes}
  {dir path fromId fileName : String} {r : Receiver σ} {o : Operation} {os : List Operation}
  {c : Chunk} {file : ReceivedFile}

/-- How long a file of a sender stays, and what is in its place after that. -/
structure StaysUntilMet (read? : σ → (path : String) → Option Bytes) (r : Receiver σ)
    (fromId fileName : String) : Prop where
  /-- Files that do not meet it are stored elsewhere. -/
  stays : ∀ os, (∀ h ∈ r.handlings os, ∀ file, h.result = .ok (some file) →
      ¬ Path.Meets fromId fileName file.fromId file.fileName) →
    read? (r.after os).storage (Path.outputPath r.downloadDir fromId fileName) =
      read? r.storage (Path.outputPath r.downloadDir fromId fileName)
  /-- A file that meets it takes its place. -/
  replaced : ∀ c file, (r.accept c).1 = .ok (some file) →
    Path.Meets fromId fileName file.fromId file.fileName →
    ∃ size data, (r.table.accept c).1 = .ok (some ⟨⟨file.fromId, file.fileName⟩, size, data⟩) ∧
      read? (r.accept c).2.1.storage (Path.outputPath r.downloadDir fromId fileName) = some data

theorem ready_after (works : Storage.Works good read? dir) (ready : Ready good dir r)
    (os : List Operation) : Ready good dir (r.after os) := by
  induction os generalizing r with
  | nil => exact ready
  | cons o os ih => exact ih (follows works ready o).ready

/-- With a chunk that gives a file, the bytes of a transfer are stored at the path of the file. -/
theorem stored_of_accept (works : Storage.Works good read? dir) (ready : Ready good dir r)
    (given : (r.accept c).1 = .ok (some file)) :
    ∃ done, (r.table.accept c).1 = .ok (some done) ∧ file = .ofData dir done.key done.data ∧
      read? (r.accept c).2.1.storage (Path.outputPath dir done.key.fromId done.key.fileName) =
        some done.data := by
  rcases r.accept_cases c with ⟨e, -, here⟩ | ⟨-, here⟩ | ⟨done, completed, here⟩
  · rw [here] at given
    cases given
  · rw [here] at given
    cases given
  · have closed : Ready good dir { r with table := (r.table.accept c).2.1 } :=
      ⟨ready.sound, ready.dir_eq⟩
    obtain ⟨storage, stored, -, kept⟩ := store_eq works closed done
    rw [stored] at here
    rw [here] at given ⊢
    cases given
    exact ⟨done, completed, rfl, kept⟩

/-- An operation leaves all paths as they were but that of the file it gives. -/
theorem read?_operate_of_ne (keeps : Storage.Keeps good read? dir) (ready : Ready good dir r)
    (apart : ∀ file, (r.operate o).1.result = .ok (some file) → file.path ≠ path) :
    read? (r.operate o).2.storage path = read? r.storage path := by
  cases o with
  | announce a => rfl
  | accept c =>
    have closed := ready.with_table (r.table.accept c).2.1
    rw [operate] at apart ⊢
    rcases r.accept_cases c with ⟨e, -, here⟩ | ⟨-, here⟩ | ⟨done, -, here⟩
    · rw [here]
    · rw [here]
    · obtain ⟨storage, stored, -⟩ := store_eq keeps.toWorks closed done
      rw [here] at apart ⊢
      rw [stored] at apart
      have elsewhere := apart _ rfl
      dsimp only [ReceivedFile.ofData] at elsewhere
      exact read?_store_of_ne keeps closed done (Ne.symm elsewhere)

theorem read?_after_of_ne (keeps : Storage.Keeps good read? dir) (ready : Ready good dir r)
    (apart : ∀ h ∈ r.handlings os, ∀ file, h.result = .ok (some file) → file.path ≠ path) :
    read? (r.after os).storage path = read? r.storage path := by
  induction os generalizing r with
  | nil => rfl
  | cons o os ih =>
    rw [handlings, List.forall_mem_cons] at apart
    have later := ih (follows keeps.toWorks ready o).ready apart.2
    exact later.trans (read?_operate_of_ne keeps ready apart.1)

/-- A file that comes of a run is stored at the place for its sender and its name. -/
theorem path_of_mem_handlings (works : Storage.Works good read? dir) (ready : Ready good dir r)
    {h : Handling σ} (there : h ∈ r.handlings os) (given : h.result = .ok (some file)) :
    file.path = Path.outputPath dir file.fromId file.fileName := by
  induction os generalizing r with
  | nil => cases there
  | cons o os ih =>
    rcases List.mem_cons.mp there with rfl | later
    · cases o with
      | announce a => cases given
      | accept c =>
        obtain ⟨done, -, rfl, -⟩ := stored_of_accept works ready given
        dsimp only [ReceivedFile.ofData]
    · exact ih (follows works ready o).ready later

end

/-- Two files have the same place exactly when they meet, and in a storage that works a file stays
as it was stored until one that meets it is stored. -/
theorem files_share_places_iff_they_meet (dir fromId fileName : String) :
    (∀ otherId otherName,
      Path.outputPath dir fromId fileName = Path.outputPath dir otherId otherName ↔
        Path.Meets fromId fileName otherId otherName) ∧
    ∀ {σ : Type} [Storage σ] {good : σ → Prop} {read? : σ → (path : String) → Option Bytes}
      {r : Receiver σ}, Storage.Keeps good read? dir → Ready good dir r →
      StaysUntilMet read? r fromId fileName := by
  refine ⟨fun _ _ => Path.outputPath_eq_iff, ?_⟩
  intro σ _ good read? r keeps ready
  obtain rfl := ready.dir_eq
  constructor
  case stays =>
    intro os unmet
    refine read?_after_of_ne keeps ready fun h there file given same => ?_
    rw [path_of_mem_handlings keeps.toWorks ready there given] at same
    exact unmet h there file given (Path.outputPath_eq_iff.mp same.symm)
  case replaced =>
    intro c file given meets
    obtain ⟨⟨key, size, data⟩, completed, rfl, kept⟩ :=
      stored_of_accept keeps.toWorks ready given
    dsimp only [ReceivedFile.ofData] at meets ⊢
    refine ⟨size, data, completed, ?_⟩
    rw [Path.outputPath_eq_iff.mpr meets]
    exact kept

/-- A file arrives in one chunk. -/
def arrival (fromId name data : String) : List Operation :=
  [.announce ⟨fromId, none, name, 1, 1024⟩, .accept ⟨fromId, none, name, 0, data, true⟩]

theorem files_share_places_iff_they_meet_namesake :
    let path := Path.outputPath "downloads" "ann" "lee_notes"
    let r := (fresh Memory.empty "downloads").after (arrival "ann" "lee_notes" "AQ==")
    let r' := r.after (arrival "bob" "lee_notes" "Aw==")
    Memory.read? r.storage path = some [1] ∧ Memory.read? r'.storage path = some [1] ∧
      Path.Meets "ann" "lee_notes" "ann_lee" "notes" ∧
      Memory.read? (r'.after (arrival "ann_lee" "notes" "Ag==")).storage path = some [2] := by
  intro path r r'
  obtain ⟨places, stays⟩ := files_share_places_iff_they_meet "downloads" "ann" "lee_notes"
  have works := Memory.works "downloads"
  have ready : Ready (fun _ => True) "downloads" r := ready_after works ⟨trivial, rfl⟩ _
  have stored : Memory.read? r.storage path = some [1] := by decide +kernel
  have elsewhere : ∀ h ∈ r.handlings (arrival "bob" "lee_notes" "Aw=="), ∀ file,
      h.result = .ok (some file) → ¬ Path.Meets "ann" "lee_notes" file.fromId file.fileName := by
    have results : (r.handlings (arrival "bob" "lee_notes" "Aw==")).map
        (fun h => h.result.toOption.join.map fun file => (file.fromId, file.fileName)) =
          [none, some ("bob", "lee_notes")] := by decide +kernel
    intro h there file given
    have one : some (file.fromId, file.fileName) ∈ [none, some ("bob", "lee_notes")] := by
      rw [← results]
      exact List.mem_map.mpr ⟨h, there, by rw [given]; rfl⟩
    have named : file.fromId = "bob" ∧ file.fileName = "lee_notes" := by simpa using one
    rw [← places, named.1, named.2]
    decide +kernel
  have meets : Path.Meets "ann" "lee_notes" "ann_lee" "notes" :=
    .shorter "lee" (by decide +kernel) (by decide +kernel)
  have kept := (stays (Memory.keeps "downloads") ready).stays _ elsewhere
  rw [ready.dir_eq] at kept
  refine ⟨stored, kept.trans stored, meets, ?_⟩
  -- The announcement stores nothing, and the chunk stores the file.
  let announced := r'.after [.announce ⟨"ann_lee", none, "notes", 1, 1024⟩]
  have ready' : Ready (fun _ => True) "downloads" announced :=
    ready_after works (ready_after works ready _) _
  have completed : (announced.table.accept ⟨"ann_lee", none, "notes", 0, "Ag==", true⟩).1 =
      .ok (some ⟨⟨"ann_lee", "notes"⟩, 1, [2]⟩) := by decide +kernel
  have follows := follows works ready' (.accept ⟨"ann_lee", none, "notes", 0, "Ag==", true⟩)
  have given := (follows.stored _ completed).1
  rw [operate] at given
  obtain ⟨size, data, completed', there⟩ :=
    (stays (Memory.keeps "downloads") ready').replaced _ _ given meets
  rw [ready'.dir_eq] at there
  cases completed.symm.trans completed'
  rw [arrival, ← List.singleton_append, after_concat, operate]
  exact there

/-- Two senders with different ids can have files in the same place. -/
theorem not_all_senders_have_places_of_their_own :
    ¬ ∀ dir fromId fileName otherId otherName : String,
      fromId ≠ "" → otherId ≠ "" → fromId ≠ otherId →
        Path.outputPath dir fromId fileName ≠ Path.outputPath dir otherId otherName := by
  intro all
  exact all "downloads" "ann" "lee_notes" "ann_lee" "notes" (by decide) (by decide) (by decide)
    (by decide +kernel)

end Mailroom.Transfer.Receiver
