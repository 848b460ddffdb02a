import Mailroom.Path

/-!
# The names of a path

A path is cut at its slashes, and what is empty or a single dot names nothing. `LastName` says which
name is the last one without cutting the path: the name stands at the end and a slash, if anything,
in front of it, and a slash or a slash with a dot can follow it any number of times. The statements
are that the names of a path and its last name are found as these rules have them, and that a path
seen from a directory has the names of both, one after the other.
-/

namespace Mailroom.Path

/-- Text between slashes that names something. -/
structure IsName (s : List Char) : Prop where
  nonempty : s ≠ []
  notDot : s ≠ ['.']
  noSlash : '/' ∉ s

/-- The last name of a path, which may lead up. -/
inductive LastName : (path name : List Char) → Prop
  | alone {name : List Char} (isName : IsName name) : LastName name name
  | behind {name : List Char} (up : List Char) (isName : IsName name) :
      LastName (up ++ '/' :: name) name
  | slash {path name : List Char} (last : LastName path name) : LastName (path ++ ['/']) name
  | dot {path name : List Char} (last : LastName path name) : LastName (path ++ ['/', '.']) name

/-- The final name of a path: its last one, if that does not lead up. -/
def FinalName (path name : String) : Prop := LastName path.toList name.toList ∧ name ≠ ".."

/-- The names of a path, as the characters of each. -/
def names (s : List Char) : List (List Char) := (segments s).filter fun t => t ≠ [] && t ≠ ['.']

variable {s name : List Char} {dir path : String}

theorem components_eq (p : String) : components p = (names p.toList).map String.ofList := rfl

theorem segments_ne_nil (s : List Char) : segments s ≠ [] := by
  cases s with
  | nil => exact List.cons_ne_nil _ _
  | cons c s =>
    rw [segments]
    split
    · exact List.cons_ne_nil _ _
    · split <;> exact List.cons_ne_nil _ _

theorem segments_append_slash (s t : List Char) :
    segments (s ++ '/' :: t) = segments s ++ segments t := by
  induction s with
  | nil => simp [segments]
  | cons c s ih =>
    rw [List.cons_append, segments, segments, ih]
    by_cases slash : c = '/'
    · simp [slash]
    · cases cut : segments s with
      | nil => exact absurd cut (segments_ne_nil s)
      | cons first rest => simp [slash]

theorem segments_of_noSlash (noSlash : '/' ∉ s) : segments s = [s] := by
  induction s with
  | nil => rfl
  | cons c s ih =>
    rw [List.mem_cons, not_or] at noSlash
    rw [segments, if_neg (Ne.symm noSlash.1), ih noSlash.2]

theorem names_append_slash (s t : List Char) : names (s ++ '/' :: t) = names s ++ names t := by
  rw [names, segments_append_slash, List.filter_append]
  rfl

theorem IsName.names_eq (isName : IsName name) : names name = [name] := by
  rw [names, segments_of_noSlash isName.noSlash]
  simp [isName.nonempty, isName.notDot]

theorem names_of_not_isName (noSlash : '/' ∉ s) (nothing : ¬ IsName s) :
    names s = [] ∧ (s = [] ∨ s = ['.']) := by
  by_cases empty : s = []
  · exact ⟨by rw [empty]; rfl, .inl empty⟩
  · by_cases dot : s = ['.']
    · exact ⟨by rw [dot]; rfl, .inr dot⟩
    · exact absurd ⟨empty, dot, noSlash⟩ nothing

/-- Text has no slash, or it is cut at its last one. -/
theorem exists_last_slash (s : List Char) :
    '/' ∉ s ∨ ∃ up last, s = up ++ '/' :: last ∧ '/' ∉ last := by
  by_cases slash : '/' ∈ s
  · obtain ⟨last, up, reversed, noSlash⟩ :=
      List.eq_append_cons_of_mem (List.mem_reverse.mpr slash)
    refine .inr ⟨up.reverse, last.reverse, ?_, mt List.mem_reverse.mp noSlash⟩
    rw [← List.reverse_reverse s, reversed]
    simp
  · exact .inl slash

theorem LastName.names_eq (last : LastName s name) : ∃ before, names s = before ++ [name] := by
  induction last with
  | alone isName => exact ⟨[], isName.names_eq⟩
  | behind up isName =>
    rw [names_append_slash, isName.names_eq]
    exact ⟨_, rfl⟩
  | slash _ ih =>
    rw [names_append_slash, show names [] = [] from rfl, List.append_nil]
    exact ih
  | dot _ ih =>
    rw [names_append_slash, show names ['.'] = [] from rfl, List.append_nil]
    exact ih

theorem lastName_of_names {s name : List Char} {before : List (List Char)}
    (named : names s = before ++ [name]) : LastName s name := by
  rcases exists_last_slash s with noSlash | ⟨up, last, cut, noSlash⟩
  · by_cases isName : IsName s
    · rw [isName.names_eq] at named
      obtain ⟨-, same⟩ := List.append_inj' ((List.nil_append [s]).trans named) rfl
      cases same
      exact .alone isName
    · rw [(names_of_not_isName noSlash isName).1] at named
      simp at named
  · have shorter : up.length < s.length := by simp [cut]
    rw [cut, names_append_slash] at named
    rw [cut]
    by_cases isName : IsName last
    · rw [isName.names_eq] at named
      obtain ⟨-, same⟩ := List.append_inj' named rfl
      cases same
      exact .behind up isName
    -- The last text names nothing, so the name is looked for in front of it.
    · obtain ⟨nothing, blank⟩ := names_of_not_isName noSlash isName
      rw [nothing, List.append_nil] at named
      have above : LastName up name := lastName_of_names named
      rcases blank with rfl | rfl
      · exact above.slash
      · exact above.dot
termination_by s.length

theorem getLast?_names : (names s).getLast? = some name ↔ LastName s name := by
  rw [List.getLast?_eq_some_iff]
  exact ⟨fun ⟨_, named⟩ => lastName_of_names named, LastName.names_eq⟩

theorem fileName?_eq_some {name : String} :
    fileName? path = some name ↔ FinalName path name := by
  have last : (components path).getLast? = some name ↔ LastName path.toList name.toList := by
    rw [components_eq, List.getLast?_map, Option.map_eq_some_iff, ← getLast?_names]
    constructor
    · rintro ⟨s, there, rfl⟩
      rwa [String.toList_ofList]
    · exact fun there => ⟨_, there, String.ofList_toList⟩
  rw [FinalName, ← last, fileName?]
  split
  next none => simp [none]
  next found here =>
    rw [here, Option.some_inj]
    split
    next up =>
      subst up
      simp only [reduceCtorEq, false_iff, not_and]
      exact fun same other => other same.symm
    next other =>
      rw [Option.some_inj]
      exact ⟨fun same => ⟨same, same ▸ other⟩, And.left⟩

theorem fileName?_eq_none : fileName? path = none ↔ ∀ name, ¬ FinalName path name := by
  simp only [Option.eq_none_iff_forall_ne_some, ne_eq, fileName?_eq_some]

/-- A path that is not absolute is put behind the directory, with a slash between if need be. -/
theorem join_of_relative (relative : isAbsolute path = false) :
    join dir path =
      if dir = "" ∨ dir.toList.getLast? = some '/' then dir ++ path else dir ++ "/" ++ path := by
  rw [join, if_neg (ne_true_of_eq_false relative)]
  split
  next empty =>
    have none : dir = "" := by
      rw [List.getLast?_eq_none_iff] at empty
      exact String.toList_eq_nil_iff.mp empty
    simp [none]
  next c last =>
    have some : dir ≠ "" := by
      rintro rfl
      cases last
    by_cases slash : c = '/' <;> simp [slash, last, some]

/-- From a directory a path has the names that it has, below those of the directory. -/
theorem components_join (relative : isAbsolute path = false) :
    components (join dir path) = components dir ++ components path := by
  rw [join_of_relative relative]
  simp only [components_eq, ← List.map_append]
  congr 1
  split
  next flush =>
    rcases flush with rfl | slash
    · simp [names, segments]
    · obtain ⟨up, ends⟩ := List.getLast?_eq_some_iff.mp slash
      rw [String.toList_append, ends, List.append_assoc, List.singleton_append, names_append_slash,
        names_append_slash, show names [] = [] from rfl, List.append_nil]
  next =>
    rw [String.toList_append, String.toList_append, List.append_assoc]
    exact names_append_slash _ _

theorem isAbsolute_join (relative : isAbsolute path = false) :
    isAbsolute (join dir path) = isAbsolute dir := by
  have start : ∀ s : String, dir ≠ "" → isAbsolute (dir ++ s) = isAbsolute dir := by
    intro s some
    obtain ⟨c, rest, split⟩ := List.exists_cons_of_ne_nil (mt String.toList_eq_nil_iff.mp some)
    rw [isAbsolute, isAbsolute, String.toList_append, split]
    rfl
  by_cases none : dir = ""
  · rw [join_of_relative relative, if_pos (.inl none), none, String.empty_append, relative]
    rfl
  · rw [join_of_relative relative]
    split
    · exact start path none
    · rw [String.append_assoc]
      exact start _ none

end Mailroom.Path
