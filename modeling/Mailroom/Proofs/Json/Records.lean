import Mailroom.Proofs.Json.Elements

/-!
# Records are read exactly

A record is read from the two forms that the grammar gives it and from no other bytes, if each of
its fields is read exactly. From an object its slots are filled; a list is gone through field by
field.
-/

namespace Mailroom.Json

open Ascii

theorem FieldShape.given_iff {α : Type} {f : FieldShape α} {ms : List (String × Bytes)} {a : α} :
    f.Given ms a ↔ ∃ slot, f.Fills none ms slot ∧ slot.or f.absent = some a := by
  match ms with
  | [] =>
    constructor
    · intro absent
      exact ⟨none, rfl, absent⟩
    · rintro ⟨slot, rfl, absent⟩
      exact absent
  | [m] =>
    constructor
    · intro form
      exact ⟨some a, ⟨rfl, a, rfl, form⟩, rfl⟩
    · rintro ⟨slot, ⟨-, a', rfl, form⟩, same⟩
      cases same
      exact form
  | _ :: _ :: _ =>
    constructor
    · exact False.elim
    · rintro ⟨slot, filled, -⟩
      exact filled

namespace Reads

variable {αs : List Type} {fields : Fields αs} {shape : Shape αs} {t : Tuple αs} {w s rest : Bytes}

theorem inAnyOrder_iff (reads : Reads fields shape) {ms : List (String × Bytes)} :
    shape.InAnyOrder ms t ↔
      ∃ slots, shape.Fills fields.noneYet ms slots ∧ fields.complete slots = .ok t := by
  induction reads generalizing ms with
  | nil =>
    constructor
    · intro values
      exact ⟨(), values, rfl⟩
    · rintro ⟨slots, values, -⟩
      exact values
  | @cons α αs field fields f shape name absent exact others ih =>
    obtain ⟨a, t⟩ := t
    constructor
    · rintro ⟨given, rest⟩
      obtain ⟨slot, filled, value⟩ := FieldShape.given_iff.mp given
      obtain ⟨slots, filled', complete⟩ := ih.mp rest
      refine ⟨(slot, slots), ⟨filled, filled'⟩, ?_⟩
      simp only [Fields.complete, absent, value, complete, Except.map]
    · rintro ⟨⟨slot, slots⟩, ⟨filled, filled'⟩, complete⟩
      rw [Fields.complete] at complete
      split at complete
      · cases complete
      next a' value =>
        obtain ⟨t', complete', same⟩ := map_eq_ok.mp complete
        cases same
        exact ⟨FieldShape.given_iff.mpr ⟨slot, filled, absent ▸ value⟩,
          ih.mpr ⟨slots, filled', complete'⟩⟩

theorem object_sound (reads : Reads fields shape) (taken : fields.readObject s = .ok (t, rest)) :
    ∃ w ms, openBrace :: s = w ++ rest ∧ ObjectOf Text.Spells ms w ∧ shape.InAnyOrder ms t := by
  obtain ⟨ws, shown, inside⟩ := skipSpace_parts s
  rw [Fields.readObject] at taken
  dsimp only at taken
  split at taken
  · cases taken
  next b r visible =>
    rw [visible] at shown
    split at taken
    next same =>
      subst same
      obtain ⟨⟨slots, s'⟩, entered, left⟩ := bind_eq_ok.mp taken
      obtain ⟨t', complete, kept⟩ := bind_eq_ok.mp left
      cases entered
      cases kept
      refine ⟨_, [], ?_, .nil inside, ?_⟩
      · rw [shown]
        simp
      · exact reads.inAnyOrder_iff.mpr ⟨_, Shape.fills_nil.mpr rfl, complete⟩
    next =>
      split at taken
      next same =>
        subst same
        obtain ⟨⟨slots, s'⟩, entered, left⟩ := bind_eq_ok.mp taken
        obtain ⟨t', complete, kept⟩ := bind_eq_ok.mp left
        cases kept
        obtain ⟨p, w, m, ms, parts, member, continues, filled⟩ := reads.members_sound entered
        refine ⟨_, m :: ms, ?_, .cons inside member continues, ?_⟩
        · rw [shown, parts]
          simp
        · exact reads.inAnyOrder_iff.mpr ⟨slots, filled, complete⟩
      · cases taken

theorem length_lt_of_continues {α : Type} {closing : UInt8} {Item : α → Bytes → Prop} {as : List α}
    (continues : Continues closing Item as w) : as.length < w.length := by
  induction continues with
  | nil before => simp
  | cons before after item more ih =>
    simp only [List.length_append, List.length_cons]
    omega

theorem object_complete (reads : Reads fields shape) {ms : List (String × Bytes)}
    (form : ObjectOf Text.Spells ms w) (given : shape.InAnyOrder ms t) (rest : Bytes) :
    ∃ w', w = openBrace :: w' ∧ fields.readObject (w' ++ rest) = .ok (t, rest) := by
  obtain ⟨slots, filled, complete⟩ := reads.inAnyOrder_iff.mp given
  cases form with
  | @nil ws inside =>
    obtain rfl := Shape.fills_nil.mp filled
    refine ⟨_, rfl, ?_⟩
    rw [List.append_assoc, List.singleton_append, Fields.readObject,
      skipSpace_spaces inside (by decide)]
    simp only [if_true, bind, Except.bind, complete]
  | @cons ws p w m ms inside member continues =>
    refine ⟨_, rfl, ?_⟩
    obtain ⟨p, rfl⟩ := starts_member member Text.starts_of_spells
    have few := length_lt_of_continues continues
    have enough : ms.length < (p ++ (w ++ rest)).length.succ := by
      simp only [List.length_append]
      omega
    have taken := reads.members_complete member continues filled rest enough
    rw [List.append_assoc, List.cons_append, List.cons_append, List.append_assoc, Fields.readObject,
      skipSpace_spaces inside (by decide)]
    dsimp only
    rw [if_neg (by decide), if_pos rfl, taken]
    simp only [bind, Except.bind, complete]

end Reads

section

variable {αs : List Type} {fields : Fields αs} {shape : Shape αs} {t : Tuple αs} {w : Bytes}

theorem starts_list {vs : List Bytes} (form : ListOf vs w) :
    ∃ w', w = openBracket :: w' ∧ Upcoming true vs w' := by
  obtain ⟨w', rfl⟩ : ∃ w', w = openBracket :: w' := by
    cases form <;> exact ⟨_, rfl⟩
  exact ⟨w', rfl, form⟩

theorem starts_record (form : shape.Spells w t) :
    ∃ w', w = openBrace :: w' ∨ w = openBracket :: w' := by
  cases form with
  | object form given => cases form <;> exact ⟨_, .inl rfl⟩
  | list form given =>
    obtain ⟨w', rfl, -⟩ := starts_list form
    exact ⟨w', .inr rfl⟩

theorem concat_of_continues {α : Type} {closing : UInt8} {Item : α → Bytes → Prop} {as : List α}
    (continues : Continues closing Item as w) : ∃ w', w = w' ++ [closing] := by
  induction continues with
  | nil before => exact ⟨_, rfl⟩
  | @cons ws ws' p w a as before after item more ih =>
    obtain ⟨w', rfl⟩ := ih
    exact ⟨ws ++ comma :: (ws' ++ (p ++ w')), by simp⟩

theorem concat_of_enclosed {α : Type} {opening closing : UInt8} {Item : α → Bytes → Prop}
    {as : List α} (form : Enclosed opening closing Item as w) : ∃ w', w = w' ++ [closing] := by
  cases form with
  | @nil ws inside => exact ⟨opening :: ws, rfl⟩
  | @cons ws p w a as after item more =>
    obtain ⟨w', rfl⟩ := concat_of_continues more
    exact ⟨opening :: (ws ++ (p ++ w')), by simp⟩

theorem concat_of_record (form : shape.Spells w t) :
    ∃ w', w = w' ++ [closeBrace] ∨ w = w' ++ [closeBracket] := by
  cases form with
  | object form given =>
    obtain ⟨w', shown⟩ := concat_of_enclosed form
    exact ⟨w', .inl shown⟩
  | list form given =>
    obtain ⟨w', shown⟩ := concat_of_enclosed form
    exact ⟨w', .inr shown⟩

theorem record_notNull (form : shape.Spells w t) : w.head? ≠ some (ofChar 'n') := by
  obtain ⟨w, rfl | rfl⟩ := starts_record form
  · exact (by decide : some openBrace ≠ some (ofChar 'n'))
  · exact (by decide : some openBracket ≠ some (ofChar 'n'))

theorem exact_record (reads : Reads fields shape) (name : String) :
    Exact (fields.read name) shape.Spells where
  sound {s rest t} taken := by
    obtain ⟨ws, shown, before⟩ := skipSpace_parts s
    rw [Fields.read] at taken
    split at taken
    · cases taken
    next b r visible =>
      rw [visible] at shown
      split at taken
      next same =>
        obtain ⟨w, ms, parts, form, given⟩ := reads.object_sound taken
        exact ⟨ws, w, by rw [shown, same, parts], before, .object form given⟩
      next =>
        split at taken
        next same =>
          obtain ⟨⟨t', s'⟩, entered, left⟩ := bind_eq_ok.mp taken
          obtain ⟨rest', ended, kept⟩ := bind_eq_ok.mp left
          cases kept
          obtain ⟨vs, w, rfl, form, given⟩ := reads.elements_sound entered ended
          exact ⟨ws, openBracket :: w, by rw [shown, same]; rfl, before, .list form given⟩
        · cases taken
  complete {ws w rest t} before form _ := by
    cases form with
    | object form given =>
      obtain ⟨w, rfl, taken⟩ := reads.object_complete form given rest
      rw [Fields.read, List.cons_append, skipSpace_spaces before (by decide)]
      exact taken
    | list form given =>
      obtain ⟨w, rfl, upcoming⟩ := starts_list form
      obtain ⟨s', taken, ended⟩ := reads.elements_complete 0 upcoming given rest
      have other : openBracket ≠ openBrace := by decide
      rw [Fields.read, List.cons_append, skipSpace_spaces before (by decide)]
      simp only [if_neg other, if_true, taken, bind, Except.bind, ended]
  begins form := by
    obtain ⟨w, rfl | rfl⟩ := starts_record form
    · exact ⟨openBrace, w, rfl, by decide, by decide⟩
    · exact ⟨openBracket, w, rfl, by decide, by decide⟩

end

/-- A reader that gives another form to what is read is exact for the same bytes. -/
theorem Exact.map {α β : Type} {read : Reader α} {Spells : Bytes → α → Prop} {f : α → β}
    {g : β → α} (exact : Exact read Spells) (back : ∀ a, g (f a) = a) (forth : ∀ b, f (g b) = b) :
    Exact (fun s => (read s).map fun (a, r) => (f a, r)) fun w b => Spells w (g b) where
  sound taken := by
    obtain ⟨⟨a, rest⟩, given, kept⟩ := map_eq_ok.mp taken
    cases kept
    obtain ⟨ws, w, parts, before, form⟩ := exact.sound given
    exact ⟨ws, w, parts, before, (back a).symm ▸ form⟩
  complete {ws w rest b} before form ends := by
    have taken := exact.complete before form ends
    simp only [taken, Except.map, forth]
  begins form := exact.begins form

theorem exact_variant {α : Type} {known : List (String × α)} {tag : α → String}
    (named : ∀ {name a}, readVariant.variant known name = .ok a ↔ name = tag a) :
    Exact (readVariant known) (SpellsVariant tag) where
  sound {s rest a} taken := by
    obtain ⟨ws, shown, before⟩ := skipSpace_parts s
    rw [readVariant] at taken
    split at taken
    · cases taken
    next b r visible =>
      rw [visible] at shown
      split at taken
      next same =>
        obtain ⟨⟨name, s'⟩, text, left⟩ := bind_eq_ok.mp taken
        obtain ⟨a', found, kept⟩ := bind_eq_ok.mp left
        cases kept
        obtain rfl := named.mp found
        obtain ⟨w, rfl, form⟩ := Text.spells_of_read text
        exact ⟨ws, quote :: w, by rw [shown, same]; rfl, before, .inl form⟩
      next =>
        split at taken
        next same =>
          obtain ⟨⟨name, s₁⟩, text, afterText⟩ := bind_eq_ok.mp taken
          obtain ⟨a', found, afterName⟩ := bind_eq_ok.mp afterText
          obtain ⟨s₂, between, afterColon⟩ := bind_eq_ok.mp afterName
          obtain ⟨⟨⟨⟩, s₃⟩, null, left⟩ := bind_eq_ok.mp afterColon
          clear taken afterText afterName afterColon
          obtain rfl := named.mp found
          obtain ⟨ws₁, k, rfl, inside, key⟩ := (exact_text _).sound text
          obtain ⟨ws₂, rfl, before'⟩ := parts_of_readColon between
          obtain ⟨ws₃, v, rfl, after', form⟩ := exact_null.sound null
          obtain ⟨ws₄, shown', after⟩ := skipSpace_parts s₃
          dsimp only at left
          split at left
          · cases left
          next c r' visible' =>
            rw [visible'] at shown'
            split at left
            next same' =>
              cases left
              have member : Member Text.Spells (tag a, v) _ := .intro key before' after'
              refine ⟨ws, _, ?_, before, .inr ⟨v, form, .cons inside member (.nil after)⟩⟩
              rw [shown, shown', same, same']
              simp
            · cases left
        · cases taken
  complete {ws w rest a} before form _ := by
    rcases form with text | ⟨v, null, object⟩
    · obtain ⟨w, rfl, taken⟩ := Text.read_of_spells text
      rw [readVariant, List.cons_append, skipSpace_spaces before (by decide)]
      simp only [if_true, taken, bind, Except.bind, named.mpr rfl]
    · cases object with
      | cons inside member more =>
        cases more with
        | @nil ws₄ after =>
          obtain ⟨k, ws₂, ws₃, rfl, before', after', key⟩ := Reads.parts_of_member member
          have ends' : Ends (ws₄ ++ closeBrace :: rest) :=
            ends_of_separates after (.inr (.inr rfl)) rest
          have value := exact_null.complete (a := ()) after' null ends'
          have other : openBrace ≠ quote := by decide
          simp only [List.append_assoc, List.cons_append, List.nil_append] at value ⊢
          rw [readVariant, skipSpace_spaces before (by decide)]
          simp only [if_neg other, if_true, readTextAs,
            skipSpace_spaces inside (by decide : isSpace quote = false), key, bind, Except.bind,
            named.mpr rfl, readColon_spaces before', value,
            skipSpace_spaces after (by decide : isSpace closeBrace = false)]
  begins {w a} form := by
    rcases form with text | ⟨v, -, object⟩
    · exact (exact_text "").begins text
    · cases object
      exact ⟨openBrace, _, rfl, by decide, by decide⟩

end Mailroom.Json
