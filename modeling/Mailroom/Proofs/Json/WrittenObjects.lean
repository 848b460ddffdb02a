import Mailroom.Json.Record
import Mailroom.Proofs.Json.WrittenValues

/-!
# Written objects read back

A written object with the fields of a record as its members is read back as that record. Which
members are still due, given the fields already read, is the relation `Fields.Awaits`; reading a
member leads from one such state to the next, and at the end of the members the record is complete.

Only objects whose members stand in the order of the fields are treated here, because that is the
order they are written in.
-/

namespace Mailroom.Json

open Ascii

/-- Inside an object a reader takes exactly these bytes, and for this value. -/
def ReadsBack {α : Type} (read : Reader α) (written : Bytes) (a : α) : Prop :=
  ∀ rest, Closes rest → read (written ++ rest) = .ok (a, rest)

theorem readsBack_text (s : String) : ReadsBack readText (Text.write s) s :=
  fun rest _ => readText_write s rest

theorem readsBack_natural (n : UInt64) : ReadsBack readNatural (writeNatural n.toNat) n :=
  fun _ closes => readNatural_write n closes

theorem readsBack_flag (b : Bool) : ReadsBack readFlag (writeFlag b) b :=
  fun rest _ => readFlag_write b rest

theorem readsBack_nullable {α : Type} {read : Reader α} {b : UInt8} {s : Bytes} {a : α}
    (notSpace : isSpace b = false) (notNull : b ≠ ofChar 'n')
    (back : ReadsBack read (b :: s) a) : ReadsBack (readNullable read) (b :: s) (some a) := by
  intro rest closes
  have value := back rest closes
  rw [List.cons_append] at value ⊢
  rw [readNullable, skipSpace_cons notSpace]
  simp only [if_neg notNull, value, Except.map]

theorem readColon_colon (s : Bytes) : readColon (colon :: s) = .ok s := by
  rw [readColon, skipSpace_cons (by decide)]
  rfl

/-- A member after the first one. -/
def writeFurther (m : String × Bytes) : Bytes := comma :: (Text.write m.1 ++ colon :: m.2)

theorem intercalate_comma (value : Bytes) (values : List Bytes) :
    [comma].intercalate (value :: values) = value ++ values.flatMap (comma :: ·) := by
  induction values generalizing value with
  | nil => simp [List.intercalate]
  | cons next values ih =>
    rw [List.flatMap_cons, List.cons_append, ← ih]
    simp [List.intercalate, List.intersperse_cons_cons]

theorem writeObject_cons (key : String) (value : Bytes) (members : List (String × Bytes)) :
    writeObject ((key, value) :: members) =
      openBrace :: Text.write key ++ colon :: value ++ members.flatMap writeFurther ++
        [closeBrace] := by
  have further : writeFurther = fun m => comma :: (Text.write m.1 ++ colon :: m.2) := rfl
  rw [writeObject, List.map_cons, intercalate_comma, List.flatMap_map]
  simp [further]

theorem length_le_further (members : List (String × Bytes)) :
    members.length ≤ (members.flatMap writeFurther).length := by
  induction members with
  | nil => simp
  | cons m members ih =>
    rw [List.flatMap_cons, List.length_append, writeFurther, List.length_cons, List.length_cons]
    omega

theorem closes_further (members : List (String × Bytes)) (rest : Bytes) :
    Closes (members.flatMap writeFurther ++ closeBrace :: rest) := by
  cases members with
  | nil => exact ⟨closeBrace, rest, rfl, .inr rfl⟩
  | cons m members => exact ⟨comma, _, rfl, .inl rfl⟩

theorem lineFeed_notMem_writeObject {members : List (String × Bytes)}
    (values : ∀ m ∈ members, lineFeed ∉ m.2) : lineFeed ∉ writeObject members := by
  have notBrace : lineFeed ≠ openBrace ∧ lineFeed ≠ closeBrace := by decide
  have notColon : lineFeed ≠ colon ∧ lineFeed ≠ comma := by decide
  cases members with
  | nil => simp [writeObject, notBrace]
  | cons m members =>
    have first := values m List.mem_cons_self
    have others : lineFeed ∉ members.flatMap writeFurther := by
      intro h
      obtain ⟨m, hm, inside⟩ := List.mem_flatMap.mp h
      have value := values m (List.mem_cons_of_mem _ hm)
      simp [writeFurther, notColon, Text.lineFeed_notMem_write, value] at inside
    rw [writeObject_cons]
    simp [notBrace, notColon, Text.lineFeed_notMem_write, first, others]

namespace Fields

def names {αs : List Type} : Fields αs → List String
  | .nil => []
  | .cons field fields => field.name :: fields.names

/-- The slots hold the tuple once these members are read into them. -/
inductive Awaits :
    {αs : List Type} → Fields αs → Slots αs → Tuple αs → List (String × Bytes) → Prop
  | nil : Awaits .nil () () []
  | filled {α : Type} {αs : List Type} {field : RecordField α} {fields : Fields αs}
      {slots : Slots αs} {t : Tuple αs} {members : List (String × Bytes)} (a : α)
      (others : Awaits fields slots t members) :
      Awaits (.cons field fields) (some a, slots) (a, t) members
  | leftOut {α : Type} {αs : List Type} {field : RecordField α} {fields : Fields αs}
      {slots : Slots αs} {t : Tuple αs} {members : List (String × Bytes)} {a : α}
      (absent : field.absent = some a) (others : Awaits fields slots t members) :
      Awaits (.cons field fields) (none, slots) (a, t) members
  | due {α : Type} {αs : List Type} {field : RecordField α} {fields : Fields αs}
      {slots : Slots αs} {t : Tuple αs} {members : List (String × Bytes)} {a : α}
      {written : Bytes} (back : ReadsBack field.read written a)
      (others : Awaits fields slots t members) :
      Awaits (.cons field fields) (none, slots) (a, t) ((field.name, written) :: members)

variable {αs : List Type} {fields : Fields αs} {slots : Slots αs} {t : Tuple αs}
  {members : List (String × Bytes)} {key : String} {written : Bytes}

theorem key_mem_names (awaits : Awaits fields slots t members) :
    ∀ m ∈ members, m.1 ∈ fields.names := by
  induction awaits with
  | nil => simp
  | filled a others ih => exact fun m hm => List.mem_cons_of_mem _ (ih m hm)
  | leftOut absent others ih => exact fun m hm => List.mem_cons_of_mem _ (ih m hm)
  | due back others ih =>
    intro m hm
    rcases List.mem_cons.mp hm with rfl | hm
    · exact List.mem_cons_self
    · exact List.mem_cons_of_mem _ (ih m hm)

theorem key_ne_name {α : Type} {field : RecordField α}
    (distinct : (Fields.cons field fields).names.Nodup)
    (awaits : Awaits fields slots t ((key, written) :: members)) : key ≠ field.name := by
  rintro rfl
  exact (List.nodup_cons.mp distinct).1 (key_mem_names awaits _ List.mem_cons_self)

theorem complete_of_awaits_nil (awaits : Awaits fields slots t []) :
    fields.complete slots = .ok t := by
  generalize noneLeft : ([] : List (String × Bytes)) = members at awaits
  induction awaits with
  | nil => rfl
  | filled a others ih => simp [complete, ih noneLeft, Except.map]
  | leftOut absent others ih => simp [complete, ih noneLeft, absent, Except.map]
  | due back others ih => cases noneLeft

theorem readMember?_of_awaits (distinct : fields.names.Nodup)
    (awaits : Awaits fields slots t ((key, written) :: members)) {rest : Bytes}
    (closes : Closes rest) :
    ∃ after, fields.readMember? slots key (colon :: (written ++ rest)) = some (.ok (after, rest)) ∧
      Awaits fields after t members := by
  generalize given : (key, written) :: members = all at awaits
  induction awaits with
  | nil => cases given
  | filled a others ih =>
    subst given
    have other := key_ne_name distinct others
    obtain ⟨after, read, due⟩ := ih (List.nodup_cons.mp distinct).2 rfl
    exact ⟨(some a, after), by simp [readMember?, other, read, Except.map], .filled a due⟩
  | leftOut absent others ih =>
    subst given
    have other := key_ne_name distinct others
    obtain ⟨after, read, due⟩ := ih (List.nodup_cons.mp distinct).2 rfl
    exact ⟨(none, after), by simp [readMember?, other, read, Except.map], .leftOut absent due⟩
  | due back others ih =>
    cases given
    have value := back rest closes
    exact ⟨(some _, _), by simp [readMember?, readColon_colon, value, bind, Except.bind],
      .filled _ others⟩

/-- The reader has just passed the opening quote of a key. -/
theorem readMembersWith_of_awaits (distinct : fields.names.Nodup)
    (awaits : Awaits fields slots t ((key, written) :: members)) {fuel : Nat}
    (enough : members.length < fuel) (rest : Bytes) :
    ∃ after, fields.readMembersWith fuel slots ((Text.write key).tail ++
        colon :: (written ++ (members.flatMap writeFurther ++ closeBrace :: rest))) =
          .ok (after, rest) ∧ Awaits fields after t [] := by
  induction members generalizing key written slots fuel with
  | nil =>
    obtain ⟨fuel, rfl⟩ := Nat.exists_eq_add_one_of_ne_zero (by omega : fuel ≠ 0)
    obtain ⟨after, read, due⟩ := readMember?_of_awaits distinct awaits (closes_further [] rest)
    refine ⟨after, ?_, due⟩
    rw [readMembersWith, Text.read_tail_write]
    simp only [bind, Except.bind, read]
    simp [skipSpace_cons (show isSpace closeBrace = false by decide)]
  | cons next members ih =>
    obtain ⟨fuel, rfl⟩ := Nat.exists_eq_add_one_of_ne_zero (by omega : fuel ≠ 0)
    obtain ⟨between, read, due⟩ :=
      readMember?_of_awaits distinct awaits (closes_further (next :: members) rest)
    obtain ⟨after, others, finished⟩ := ih due (by simpa using enough)
    refine ⟨after, ?_, finished⟩
    have further : (next :: members).flatMap writeFurther ++ closeBrace :: rest =
        comma :: quote :: ((Text.write next.1).tail ++
          colon :: (next.2 ++ (members.flatMap writeFurther ++ closeBrace :: rest))) := by
      rw [List.flatMap_cons, writeFurther, Text.write_eq_cons]
      simp
    have notBrace : comma ≠ closeBrace := by decide
    rw [readMembersWith, Text.read_tail_write]
    simp only [bind, Except.bind, read]
    rw [further, skipSpace_cons (by decide)]
    simp only [if_neg notBrace, if_true]
    rw [skipSpace_cons (by decide)]
    simpa only [if_true] using others

theorem read_writeObject (distinct : fields.names.Nodup)
    (awaits : Awaits fields fields.noneYet t members) (given : members ≠ []) (name : String)
    (rest : Bytes) : fields.read name (writeObject members ++ rest) = .ok (t, rest) := by
  obtain ⟨⟨key, written⟩, members, rfl⟩ := List.exists_cons_of_ne_nil given
  have shown : writeObject ((key, written) :: members) ++ rest =
      openBrace :: quote :: ((Text.write key).tail ++
        colon :: (written ++ (members.flatMap writeFurther ++ closeBrace :: rest))) := by
    rw [writeObject_cons, Text.write_eq_cons]
    simp
  have enough : members.length < ((Text.write key).tail ++
      colon :: (written ++ (members.flatMap writeFurther ++ closeBrace :: rest))).length.succ := by
    have each := length_le_further members
    simp only [List.length_append, List.length_cons]
    omega
  obtain ⟨after, read, finished⟩ := readMembersWith_of_awaits distinct awaits enough rest
  have notBrace : quote ≠ closeBrace := by decide
  rw [shown, Fields.read, skipSpace_cons (by decide)]
  simp only [if_true]
  rw [readObject, skipSpace_cons (by decide)]
  simp only [if_neg notBrace, if_true, read, bind, Except.bind, complete_of_awaits_nil finished]

end Fields

end Mailroom.Json
