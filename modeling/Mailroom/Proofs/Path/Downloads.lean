import Mailroom.Proofs.Path.Names

/-!
# Where received files go

The place of a received file is made of text that a remote peer has chosen: the id of the sender and
the name of the file. Whatever these are, the file is one component below the download directory.

Nothing in that component tells where the id ends and the name begins. So two files can have one
place although they have different senders, and `Meets` says when that is: the ids become the same
text and so do the names, or what one id has more than the other stands at the front of the other's
file name.
-/

namespace Mailroom.Path

/-- A name that leads neither up nor anywhere else. -/
structure IsComponent (name : String) : Prop where
  nonempty : name ≠ ""
  notDot : name ≠ "."
  notUp : name ≠ ".."
  noSlash : '/' ∉ name.toList

/-- A path leads from a directory to one component in it. -/
structure LeadsTo (dir name path : String) : Prop where
  isComponent : IsComponent name
  joined : path = join dir name
  /-- The directory is still in front, with a slash after it if need be. -/
  text_eq : path =
    if dir = "" ∨ dir.toList.getLast? = some '/' then dir ++ name else dir ++ "/" ++ name
  components_eq : components path = components dir ++ [name]
  isAbsolute_eq : isAbsolute path = isAbsolute dir

/-- What is kept of a file's name: the final name, or a substitute if there is none. -/
def Keeps (fileName kept : String) : Prop :=
  FinalName fileName kept ∨ (∀ name, ¬ FinalName fileName name) ∧ kept = "unnamed"

/-- What is kept of a file's name, as it is found. -/
def keptName (fileName : String) : String := (fileName? fileName).getD "unnamed"

/-- Files of these senders with these names have the same place in every directory. -/
inductive Meets (fromId fileName otherId otherName : String) : Prop
  | alike (ids : flatten fromId = flatten otherId) (names : keptName fileName = keptName otherName)
  | longer (more : String) (ids : flatten fromId = flatten otherId ++ "_" ++ more)
      (names : keptName otherName = more ++ "_" ++ keptName fileName)
  | shorter (more : String) (ids : flatten otherId = flatten fromId ++ "_" ++ more)
      (names : keptName fileName = more ++ "_" ++ keptName otherName)

variable {fromId fileName otherId otherName dir name kept : String}

theorem toList_flatten (id : String) :
    (flatten id).toList = id.toList.map fun c => if c = '/' ∨ c = '\\' then '_' else c := by
  simp [flatten]

theorem noSlash_flatten (id : String) : '/' ∉ (flatten id).toList := by
  rw [toList_flatten, List.mem_map]
  rintro ⟨c, -, replaced⟩
  split at replaced
  · exact absurd replaced (by decide)
  next other => exact other (.inl replaced)

theorem keeps_iff : Keeps fileName kept ↔ kept = keptName fileName := by
  rw [Keeps, ← fileName?_eq_some, ← fileName?_eq_none, keptName]
  cases fileName? fileName <;> simp [eq_comm]

theorem LastName.isName {path name : List Char} (last : LastName path name) : IsName name := by
  induction last with
  | alone isName | behind _ isName => exact isName
  | slash _ ih | dot _ ih => exact ih

theorem Keeps.noSlash (keeps : Keeps fileName kept) : '/' ∉ kept.toList := by
  rcases keeps with ⟨last, -⟩ | ⟨-, rfl⟩
  · exact last.isName.noSlash
  · decide

theorem outputName_eq (fromId fileName : String) :
    outputName fromId fileName = flatten fromId ++ "_" ++ keptName fileName := rfl

theorem toList_outputName (fromId fileName : String) :
    (outputName fromId fileName).toList =
      (flatten fromId).toList ++ '_' :: (keptName fileName).toList := by
  simp [outputName_eq]

/-- The underscore in the middle makes the name a component. -/
theorem isComponent_outputName (fromId fileName : String) :
    IsComponent (outputName fromId fileName) := by
  have underscore : '_' ∈ (outputName fromId fileName).toList := by simp [toList_outputName]
  constructor
  case noSlash =>
    rw [toList_outputName, List.mem_append, List.mem_cons]
    rintro (sender | middle | name)
    · exact noSlash_flatten fromId sender
    · exact absurd middle (by decide)
    · exact (keeps_iff.mpr rfl : Keeps fileName _).noSlash name
  all_goals
    intro same
    rw [same] at underscore
    revert underscore
    decide

theorem IsComponent.isName (isComponent : IsComponent name) : IsName name.toList where
  nonempty := mt String.toList_eq_nil_iff.mp isComponent.nonempty
  notDot dot := isComponent.notDot (String.toList_inj.mp dot)
  noSlash := isComponent.noSlash

theorem IsComponent.relative (isComponent : IsComponent name) : isAbsolute name = false := by
  apply decide_eq_false
  intro slash
  exact isComponent.noSlash (List.mem_of_mem_head? slash)

theorem IsComponent.leadsTo (isComponent : IsComponent name) (dir : String) :
    LeadsTo dir name (join dir name) where
  isComponent := isComponent
  joined := rfl
  text_eq := join_of_relative isComponent.relative
  components_eq := by
    rw [components_join isComponent.relative, components_eq name, isComponent.isName.names_eq,
      List.map_singleton, String.ofList_toList]
  isAbsolute_eq := isAbsolute_join isComponent.relative

/-- A received file stays inside the download directory, whatever the peer has chosen. -/
theorem downloads_stay_inside (dir fromId fileName : String) :
    ∃ name kept, LeadsTo dir name (outputPath dir fromId fileName) ∧ Keeps fileName kept ∧
      name.toList =
        fromId.toList.map (fun c => if c = '/' ∨ c = '\\' then '_' else c) ++ '_' :: kept.toList := by
  refine ⟨outputName fromId fileName, keptName fileName, ?_, keeps_iff.mpr rfl, ?_⟩
  · rw [outputPath]
    exact (isComponent_outputName fromId fileName).leadsTo dir
  · rw [toList_outputName, toList_flatten]

/-- In one directory a component tells where a path leads to. -/
theorem LeadsTo.name_inj {other path : String} (leads : LeadsTo dir name path)
    (leads' : LeadsTo dir other path) : name = other := by
  have both := leads.components_eq.symm.trans leads'.components_eq
  exact List.singleton_inj.mp (List.append_cancel_left both)

/-- Text that is cut at a character in two ways: at the same place, or the one cut is further on. -/
theorem append_cons_eq_iff {c : Char} {a b s t : List Char} :
    a ++ c :: s = b ++ c :: t ↔
      (a = b ∧ s = t) ∨ (∃ more, a = b ++ c :: more ∧ t = more ++ c :: s) ∨
        ∃ more, b = a ++ c :: more ∧ s = more ++ c :: t := by
  constructor
  · intro same
    rcases List.append_eq_append_iff.mp same with ⟨gap, rfl, cut⟩ | ⟨gap, rfl, cut⟩
    · cases gap with
      | nil => exact .inl ⟨by simp, (List.cons.inj cut).2⟩
      | cons d more =>
        obtain ⟨rfl, rest⟩ := List.cons.inj cut
        exact .inr (.inr ⟨more, rfl, rest⟩)
    · cases gap with
      | nil => exact .inl ⟨by simp, (List.cons.inj cut).2.symm⟩
      | cons d more =>
        obtain ⟨rfl, rest⟩ := List.cons.inj cut
        exact .inr (.inl ⟨more, rfl, rest⟩)
  · rintro (⟨rfl, rfl⟩ | ⟨more, rfl, rfl⟩ | ⟨more, rfl, rfl⟩) <;> simp

theorem outputName_eq_iff :
    outputName fromId fileName = outputName otherId otherName ↔
      Meets fromId fileName otherId otherName := by
  rw [← String.toList_inj, toList_outputName, toList_outputName, append_cons_eq_iff]
  constructor
  · rintro (⟨ids, names⟩ | ⟨more, ids, names⟩ | ⟨more, ids, names⟩)
    · exact .alike (String.toList_inj.mp ids) (String.toList_inj.mp names)
    · refine .longer (.ofList more) ?_ ?_ <;> simp [← String.toList_inj, ids, names]
    · refine .shorter (.ofList more) ?_ ?_ <;> simp [← String.toList_inj, ids, names]
  · rintro (⟨ids, names⟩ | ⟨more, ids, names⟩ | ⟨more, ids, names⟩)
    · exact .inl ⟨congrArg _ ids, congrArg _ names⟩
    · exact .inr (.inl ⟨more.toList, by simp [ids], by simp [names]⟩)
    · exact .inr (.inr ⟨more.toList, by simp [ids], by simp [names]⟩)

/-- Two files have the same place exactly when they meet. -/
theorem outputPath_eq_iff :
    outputPath dir fromId fileName = outputPath dir otherId otherName ↔
      Meets fromId fileName otherId otherName := by
  rw [← outputName_eq_iff, outputPath, outputPath]
  constructor
  · intro same
    have leads := (isComponent_outputName fromId fileName).leadsTo dir
    have leads' := (isComponent_outputName otherId otherName).leadsTo dir
    rw [same] at leads
    exact leads.name_inj leads'
  · exact congrArg (join dir)

end Mailroom.Path
