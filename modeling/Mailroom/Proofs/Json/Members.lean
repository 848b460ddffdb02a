import Mailroom.Proofs.Json.PassedOver

/-!
# Members of an object are read exactly

The members of an object come in any order. Those that belong to a field fill its slot, one member
for each slot at most, and the others are passed over. Which members fill which slots is said member
by member here, and that is how they are read.
-/

namespace Mailroom.Json

open Ascii

/-- Readers for the fields of a shape. -/
inductive Reads : {αs : List Type} → Fields αs → Shape αs → Prop
  | nil : Reads .nil .nil
  | cons {α : Type} {αs : List Type} {field : RecordField α} {fields : Fields αs}
      {f : FieldShape α} {shape : Shape αs} (name : field.name = f.name)
      (absent : field.absent = f.absent) (exact : Exact field.read f.Spells)
      (others : Reads fields shape) : Reads (.cons field fields) (.cons f shape)

/-- Members under the name of a field take its slot from one content to another. A slot is filled
once at most. -/
def FieldShape.Fills {α : Type} (f : FieldShape α) (slot : Option α) :
    List (String × Bytes) → Option α → Prop
  | [], slot' => slot' = slot
  | [m], slot' => slot = none ∧ ∃ a, slot' = some a ∧ f.Spells m.2 a
  | _, _ => False

theorem FieldShape.fills_cons {α : Type} {f : FieldShape α} {slot slot'' : Option α}
    {m : String × Bytes} {ms : List (String × Bytes)} :
    f.Fills slot (m :: ms) slot'' ↔ ∃ slot', f.Fills slot [m] slot' ∧ f.Fills slot' ms slot'' := by
  match ms with
  | [] =>
    constructor
    · intro filled
      exact ⟨slot'', filled, rfl⟩
    · rintro ⟨slot', filled, rfl⟩
      exact filled
  | [_] =>
    constructor
    · exact False.elim
    · rintro ⟨slot', ⟨-, a, rfl, -⟩, taken, -⟩
      cases taken
  | _ :: _ :: _ =>
    constructor
    · exact False.elim
    · rintro ⟨slot', -, filled⟩
      exact filled

namespace Shape

/-- Members take the slots of all fields from some contents to others. -/
def Fills : {αs : List Type} → Shape αs → Slots αs → List (String × Bytes) → Slots αs → Prop
  | _, .nil, (), members, () => ∀ m ∈ members, Value m.2
  | _, .cons f fields, (slot, slots), members, (slot', slots') =>
    f.Fills slot (members.filter fun m => m.1 = f.name) slot' ∧
      fields.Fills slots (members.filter fun m => m.1 ≠ f.name) slots'

variable {αs : List Type} {shape : Shape αs} {slots slots' : Slots αs}

theorem fills_nil : shape.Fills slots [] slots' ↔ slots' = slots := by
  induction shape with
  | nil => exact ⟨fun _ => rfl, fun _ _ h => by cases h⟩
  | cons f shape ih =>
    obtain ⟨slot, slots⟩ := slots
    obtain ⟨slot', slots'⟩ := slots'
    constructor
    · rintro ⟨rfl, others⟩
      rw [ih.mp others]
    · intro same
      cases same
      exact ⟨rfl, ih.mpr rfl⟩

section

variable {α : Type} {f : FieldShape α} {slot slot' : Option α} {m : String × Bytes}
  {ms : List (String × Bytes)}

theorem fills_own (own : m.1 = f.name) :
    (Shape.cons f shape).Fills (slot, slots) (m :: ms) (slot', slots') ↔
      f.Fills slot (m :: ms.filter fun m => m.1 = f.name) slot' ∧
        shape.Fills slots (ms.filter fun m => m.1 ≠ f.name) slots' := by
  rw [Fills, List.filter_cons_of_pos (by simpa using own),
    List.filter_cons_of_neg (by simpa using own)]

theorem fills_other (other : m.1 ≠ f.name) :
    (Shape.cons f shape).Fills (slot, slots) (m :: ms) (slot', slots') ↔
      f.Fills slot (ms.filter fun m => m.1 = f.name) slot' ∧
        shape.Fills slots (m :: ms.filter fun m => m.1 ≠ f.name) slots' := by
  rw [Fills, List.filter_cons_of_neg (by simpa using other),
    List.filter_cons_of_pos (by simpa using other)]

end

/-- Members can be taken one after the other. -/
theorem fills_cons {m : String × Bytes} {ms : List (String × Bytes)} :
    shape.Fills slots (m :: ms) slots' ↔
      ∃ slots₁, shape.Fills slots [m] slots₁ ∧ shape.Fills slots₁ ms slots' := by
  induction shape generalizing m ms with
  | nil =>
    constructor
    · intro values
      refine ⟨(), ?_, fun q h => values q (List.mem_cons_of_mem m h)⟩
      intro q here
      obtain rfl := List.mem_singleton.mp here
      exact values q List.mem_cons_self
    · rintro ⟨slots₁, first, values⟩ q here
      rcases List.mem_cons.mp here with rfl | later
      · exact first q (List.mem_singleton_self q)
      · exact values q later
  | cons f shape ih =>
    obtain ⟨slot, slots⟩ := slots
    obtain ⟨slot', slots'⟩ := slots'
    by_cases own : m.1 = f.name
    · rw [fills_own own]
      constructor
      · rintro ⟨filled, others⟩
        obtain ⟨slot₁, first, rest⟩ := FieldShape.fills_cons.mp filled
        exact ⟨(slot₁, slots), (fills_own own).mpr ⟨first, fills_nil.mpr rfl⟩, rest, others⟩
      · rintro ⟨⟨slot₁, slots₁⟩, first, rest, others⟩
        obtain ⟨filled, same⟩ := (fills_own own).mp first
        obtain rfl := fills_nil.mp same
        exact ⟨FieldShape.fills_cons.mpr ⟨slot₁, filled, rest⟩, others⟩
    · rw [fills_other own, ih]
      constructor
      · rintro ⟨filled, slots₁, first, rest⟩
        exact ⟨(slot, slots₁), (fills_other own).mpr ⟨rfl, first⟩, filled, rest⟩
      · rintro ⟨⟨slot₁, slots₁⟩, first, filled, rest⟩
        obtain ⟨rfl, first'⟩ := (fills_other own).mp first
        exact ⟨filled, slots₁, first', rest⟩

end Shape

section

variable {αs : List Type} {fields : Fields αs} {shape : Shape αs} {slots slots' : Slots αs}
  {key : String} {s rest : Bytes}

namespace Fields

/-- The rest of a member: it is a field, or it is passed over. -/
def readMember (fields : Fields αs) (slots : Slots αs) (key : String) (s : Bytes) :
    Except Fault (Slots αs × Bytes) :=
  match fields.readMember? slots key s with
  | some result => result
  | none => do (skipValue (← readColon s)).map fun s => (slots, s)

theorem readMembersWith_succ (fields : Fields αs) (fuel : Nat) (slots : Slots αs) (s : Bytes) :
    fields.readMembersWith (fuel + 1) slots s = (do
      let (key, s) ← Text.read s
      let (slots, s) ← fields.readMember slots key s
      match skipSpace s with
      | [] => .error .endInObject
      | b :: s =>
        if b = closeBrace then .ok (slots, s)
        else if b = comma then
          match skipSpace s with
          | [] => .error .endInValue
          | c :: s =>
            if c = quote then fields.readMembersWith fuel slots s
            else if c = closeBrace then .error .trailingComma
            else .error .keyNotText
        else .error .expectedCommaOrBrace) := by
  rw [readMembersWith]
  congr 1
  funext ⟨key, s⟩
  dsimp only
  rw [readMember]
  cases fields.readMember? slots key s with
  | some result => rfl
  | none => cases readColon s <;> rfl

theorem readMember?_own {α : Type} {field : RecordField α} (own : key = field.name)
    (slot : Option α) :
    (Fields.cons field fields).readMember? (slot, slots) key s =
      some (match slot with
        | some _ => .error (.duplicateField field.name)
        | none => do
          let (a, s) ← field.read (← readColon s)
          .ok ((some a, slots), s)) :=
  if_pos own

theorem readMember?_other {α : Type} {field : RecordField α} (other : key ≠ field.name)
    (slot : Option α) :
    (Fields.cons field fields).readMember? (slot, slots) key s =
      (fields.readMember? slots key s).map fun result =>
        result.map fun (slots, s) => ((slot, slots), s) :=
  if_neg other

end Fields

namespace Reads

/-- A member that belongs to no field changes no slot. -/
theorem fills_of_unknown (reads : Reads fields shape)
    (unknown : fields.readMember? slots key s = none) {v : Bytes} (value : Value v) :
    shape.Fills slots [(key, v)] slots := by
  induction reads with
  | nil =>
    intro m here
    obtain rfl := List.mem_singleton.mp here
    exact value
  | @cons α αs field fields f shape name absent exact others ih =>
    obtain ⟨slot, slots⟩ := slots
    by_cases own : key = field.name
    · rw [Fields.readMember?_own own] at unknown
      cases unknown
    · have other : key ≠ f.name := fun same => own (same.trans name.symm)
      rw [Fields.readMember?_other own] at unknown
      have filled := ih (Option.map_eq_none_iff.mp unknown)
      exact (Shape.fills_other other).mpr ⟨rfl, filled⟩

theorem fills_of_readMember? (reads : Reads fields shape)
    (found : fields.readMember? slots key s = some (.ok (slots', rest))) :
    ∃ ws ws' v, s = ws ++ colon :: (ws' ++ (v ++ rest)) ∧ Spaces ws ∧ Spaces ws' ∧
      shape.Fills slots [(key, v)] slots' := by
  induction reads with
  | nil => cases found
  | @cons α αs field fields f shape name absent exact others ih =>
    obtain ⟨slot, slots⟩ := slots
    obtain ⟨slot', slots'⟩ := slots'
    by_cases own : key = field.name
    · have own' : key = f.name := own.trans name
      rw [Fields.readMember?_own own] at found
      cases slot with
      | some a => cases found
      | none =>
        obtain ⟨s', between, found⟩ := bind_eq_ok.mp (Option.some.inj found)
        obtain ⟨⟨a, rest'⟩, given, kept⟩ := bind_eq_ok.mp found
        cases kept
        obtain ⟨ws, rfl, before⟩ := parts_of_readColon between
        obtain ⟨ws', v, rfl, after, form⟩ := exact.sound given
        refine ⟨ws, ws', v, rfl, before, after, ?_⟩
        exact (Shape.fills_own own').mpr ⟨⟨rfl, a, rfl, form⟩, Shape.fills_nil.mpr rfl⟩
    · have other : key ≠ f.name := fun same => own (same.trans name.symm)
      rw [Fields.readMember?_other own] at found
      obtain ⟨result, given, kept⟩ := Option.map_eq_some_iff.mp found
      obtain ⟨⟨slots₁, rest'⟩, rfl, kept⟩ := map_eq_ok.mp kept
      cases kept
      obtain ⟨ws, ws', v, rfl, before, after, filled⟩ := ih given
      exact ⟨ws, ws', v, rfl, before, after, (Shape.fills_other other).mpr ⟨rfl, filled⟩⟩

theorem member_sound (reads : Reads fields shape)
    (taken : fields.readMember slots key s = .ok (slots', rest)) :
    ∃ ws ws' v, s = ws ++ colon :: (ws' ++ (v ++ rest)) ∧ Spaces ws ∧ Spaces ws' ∧
      shape.Fills slots [(key, v)] slots' := by
  rw [Fields.readMember] at taken
  split at taken
  next result found => exact reads.fills_of_readMember? (taken ▸ found)
  next unknown =>
    obtain ⟨s', between, taken⟩ := bind_eq_ok.mp taken
    obtain ⟨rest', given, kept⟩ := map_eq_ok.mp taken
    cases kept
    obtain ⟨ws, rfl, before⟩ := parts_of_readColon between
    obtain ⟨ws', v, rfl, after, value⟩ := value_of_skipValue given
    exact ⟨ws, ws', v, rfl, before, after, reads.fills_of_unknown unknown value⟩

variable {ws ws' v : Bytes}

theorem readMember?_complete (reads : Reads fields shape) (before : Spaces ws)
    (after : Spaces ws') (filled : shape.Fills slots [(key, v)] slots') (ends : Ends rest) :
    let found := fields.readMember? slots key (ws ++ colon :: (ws' ++ (v ++ rest)))
    found = some (.ok (slots', rest)) ∨ found = none ∧ slots' = slots ∧ Value v := by
  induction reads with
  | nil => exact .inr ⟨rfl, rfl, filled _ (List.mem_singleton_self _)⟩
  | @cons α αs field fields f shape name absent exact others ih =>
    obtain ⟨slot, slots⟩ := slots
    obtain ⟨slot', slots'⟩ := slots'
    by_cases own : key = field.name
    · have own' : key = f.name := own.trans name
      obtain ⟨⟨rfl, a, rfl, form⟩, same⟩ := (Shape.fills_own own').mp filled
      obtain rfl := Shape.fills_nil.mp same
      rw [Fields.readMember?_own own]
      left
      simp only [readColon_spaces before, bind, Except.bind]
      rw [exact.complete after form ends]
    · have other' : key ≠ f.name := fun same => own (same.trans name.symm)
      obtain ⟨rfl, filled'⟩ := (Shape.fills_other other').mp filled
      rw [Fields.readMember?_other own]
      rcases ih filled' with found | ⟨nothing, rfl, value⟩
      · left
        rw [found]
        rfl
      · right
        rw [nothing]
        exact ⟨rfl, rfl, value⟩

theorem member_complete (reads : Reads fields shape) (before : Spaces ws) (after : Spaces ws')
    (filled : shape.Fills slots [(key, v)] slots') (ends : Ends rest) :
    fields.readMember slots key (ws ++ colon :: (ws' ++ (v ++ rest))) = .ok (slots', rest) := by
  rcases reads.readMember?_complete before after filled ends with found | ⟨nothing, rfl, value⟩
  · rw [Fields.readMember, found]
  · rw [Fields.readMember, nothing]
    simp only [readColon_spaces before, bind, Except.bind]
    rw [skipValue_complete after value ends]
    rfl

theorem members_sound (reads : Reads fields shape) {fuel : Nat}
    (taken : fields.readMembersWith fuel slots s = .ok (slots', rest)) :
    ∃ p w m ms, quote :: s = p ++ (w ++ rest) ∧ Member Text.Spells m p ∧
      Continues closeBrace (Member Text.Spells) ms w ∧ shape.Fills slots (m :: ms) slots' := by
  induction fuel generalizing slots s with
  | zero => cases taken
  | succ fuel ih =>
    rw [Fields.readMembersWith_succ] at taken
    obtain ⟨⟨key, s₁⟩, name, entered⟩ := bind_eq_ok.mp taken
    obtain ⟨⟨slots₁, s₂⟩, member, left⟩ := bind_eq_ok.mp entered
    clear taken entered
    obtain ⟨k, rfl, form⟩ := Text.spells_of_read name
    obtain ⟨ws, ws', v, rfl, before, after, filled⟩ := reads.member_sound member
    have item : Member Text.Spells (key, v) _ := .intro form before after
    obtain ⟨ws₁, shown, before₁⟩ := skipSpace_parts s₂
    dsimp only at left
    -- A closing brace ends the object; after a comma there has to be another key.
    split at left
    · cases left
    next b r visible =>
      rw [visible] at shown
      split at left
      next same =>
        cases left
        subst same
        refine ⟨_, _, _, [], ?_, item, .nil before₁, filled⟩
        rw [shown]
        simp
      next =>
        split at left
        next same =>
          subst same
          obtain ⟨ws₂, shown', before₂⟩ := skipSpace_parts r
          split at left
          · cases left
          next c r' visible' =>
            rw [visible'] at shown'
            split at left
            next same =>
              subst same
              obtain ⟨p, w, m, ms, parts, item', continues, filled'⟩ := ih left
              refine ⟨_, _, _, m :: ms, ?_, item, .cons before₁ before₂ item' continues, ?_⟩
              · rw [shown, shown', parts]
                simp
              · exact Shape.fills_cons.mpr ⟨slots₁, filled, filled'⟩
            · split at left <;> cases left
        · cases left

theorem parts_of_member {m : String × Bytes} {p : Bytes} (member : Member Text.Spells m p) :
    ∃ k ws ws', p = quote :: (k ++ (ws ++ colon :: (ws' ++ m.2))) ∧ Spaces ws ∧ Spaces ws' ∧
      ∀ rest, Text.read (k ++ rest) = .ok (m.1, rest) := by
  obtain ⟨key, before, after⟩ := member
  obtain ⟨k, rfl, taken⟩ := Text.read_of_spells key
  exact ⟨k, _, _, rfl, before, after, taken⟩

theorem members_complete (reads : Reads fields shape) {fuel : Nat} {p w : Bytes}
    {m : String × Bytes} {ms : List (String × Bytes)} (member : Member Text.Spells m (quote :: p))
    (continues : Continues closeBrace (Member Text.Spells) ms w)
    (filled : shape.Fills slots (m :: ms) slots') (rest : Bytes) (enough : ms.length < fuel) :
    fields.readMembersWith fuel slots (p ++ (w ++ rest)) = .ok (slots', rest) := by
  induction continues generalizing fuel slots p m with
  | @nil ws₁ after₁ =>
    obtain ⟨fuel, rfl⟩ := Nat.exists_eq_add_one.mpr enough
    obtain ⟨k, ws, ws', shown, before, after, name⟩ := parts_of_member member
    obtain rfl := (List.cons.inj shown).2
    have ends : Ends (ws₁ ++ closeBrace :: rest) := ends_of_separates after₁ (.inr (.inr rfl)) rest
    have value := reads.member_complete before after filled ends
    simp only [List.append_assoc, List.cons_append, List.nil_append] at value ⊢
    rw [Fields.readMembersWith_succ, name]
    simp only [bind, Except.bind, value]
    rw [skipSpace_spaces after₁ (by decide)]
    rfl
  | @cons ws₁ ws₂ p' w m' ms after₁ before₂ member' more ih =>
    obtain ⟨fuel, rfl⟩ := Nat.exists_eq_add_one.mpr (Nat.zero_lt_of_lt enough)
    obtain ⟨slots₁, first, others⟩ := Shape.fills_cons.mp filled
    obtain ⟨k, ws, ws', shown, before, after, name⟩ := parts_of_member member
    obtain rfl := (List.cons.inj shown).2
    obtain ⟨p', rfl⟩ := starts_member member' Text.starts_of_spells
    have fewer : ms.length < fuel := by
      rw [List.length_cons] at enough
      omega
    have ends := ends_of_separates after₁ (.inl rfl) (ws₂ ++ (quote :: p' ++ (w ++ rest)))
    have value := reads.member_complete before after first ends
    have later := ih member' others fewer
    simp only [List.append_assoc, List.cons_append] at value ⊢
    rw [Fields.readMembersWith_succ, name]
    simp only [bind, Except.bind, value]
    rw [skipSpace_spaces after₁ (by decide)]
    dsimp only
    rw [if_neg (by decide), if_pos rfl, skipSpace_spaces before₂ (by decide)]
    exact later

end Reads

end

end Mailroom.Json
