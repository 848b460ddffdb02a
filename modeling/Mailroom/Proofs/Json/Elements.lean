import Mailroom.Proofs.Json.Members

/-!
# Elements of a list are read exactly

A list is gone through field by field. Once it is closed, the fields that are left have to be ones
that may be absent.
-/

namespace Mailroom.Json

open Ascii
open Fields (nextElement? endList)

/-- What is still to come of a list: all of it but the opening bracket, or what is after an item. -/
def Upcoming (first : Bool) (values : List Bytes) (w : Bytes) : Prop :=
  if first then ListOf values (openBracket :: w) else Continues closeBracket Eq values w

section

variable {first : Bool} {vs : List Bytes} {v w s rest : Bytes}

theorem upcoming_nil : Upcoming first [] w ↔ ∃ ws, w = ws ++ [closeBracket] ∧ Spaces ws := by
  cases first with
  | false =>
    constructor
    · intro continues
      cases continues with
      | nil before => exact ⟨_, rfl, before⟩
    · rintro ⟨ws, rfl, before⟩
      exact .nil before
  | true =>
    constructor
    · intro list
      cases list with
      | nil inside => exact ⟨_, rfl, inside⟩
    · rintro ⟨ws, rfl, inside⟩
      exact .nil inside

theorem nextElement?_eq_none :
    nextElement? first s = .ok none ↔ ∃ ws r, s = ws ++ closeBracket :: r ∧ Spaces ws := by
  constructor
  · intro taken
    obtain ⟨ws, shown, before⟩ := skipSpace_parts s
    rw [nextElement?] at taken
    split at taken
    · cases taken
    next b r visible =>
      split at taken
      next same => exact ⟨ws, r, by rw [shown, visible, same], before⟩
      split at taken
      · cases taken
      split at taken
      · split at taken
        · cases taken
        · split at taken <;> cases taken
      · cases taken
  · rintro ⟨ws, r, rfl, before⟩
    rw [nextElement?, skipSpace_spaces before (by decide)]
    rfl

/-- Where a list goes on, what goes before its next value makes it a list with that value. -/
theorem upcoming_of_nextElement? {s' : Bytes} (taken : nextElement? first s = .ok (some s')) :
    ∃ lead, s = lead ++ s' ∧ ∀ {ws v vs w}, Spaces ws → Continues closeBracket Eq vs w →
      Upcoming first (v :: vs) (lead ++ (ws ++ (v ++ w))) := by
  obtain ⟨ws, shown, before⟩ := skipSpace_parts s
  rw [nextElement?] at taken
  split at taken
  · cases taken
  next b r visible =>
    rw [visible] at shown
    split at taken
    · cases taken
    cases first with
    | true =>
      cases taken
      refine ⟨ws, shown, fun {ws' v vs w} inside continues => ?_⟩
      rw [← List.append_assoc]
      exact .cons (spaces_append before inside) rfl continues
    | false =>
      rw [if_neg Bool.false_ne_true] at taken
      split at taken
      next same =>
        subst same
        obtain ⟨ws', shown', after⟩ := skipSpace_parts r
        split at taken
        · cases taken
        next c r' visible' =>
          split at taken
          · cases taken
          · cases taken
            refine ⟨ws ++ comma :: ws', ?_, fun {ws'' v vs w} inside continues => ?_⟩
            · rw [shown, shown', visible']
              simp
            · have more : Continues closeBracket Eq (v :: vs) _ :=
                .cons before (spaces_append after inside) rfl continues
              simpa [Upcoming] using more
      · cases taken

theorem nextElement?_of_upcoming (upcoming : Upcoming first (v :: vs) w) (begins : Begins v) :
    ∃ w', Continues closeBracket Eq vs w' ∧
      ∀ rest, nextElement? first (w ++ rest) = .ok (some (v ++ (w' ++ rest))) := by
  obtain ⟨b, v, rfl, visible, notEnd⟩ := begins
  cases first with
  | true =>
    cases upcoming with
    | @cons ws p w _ _ inside item continues =>
      subst item
      refine ⟨w, continues, fun rest => ?_⟩
      rw [List.append_assoc, List.append_assoc, List.cons_append, nextElement?,
        skipSpace_spaces inside visible]
      dsimp only
      rw [if_neg notEnd, if_pos rfl]
  | false =>
    cases upcoming with
    | @cons ws ws' p w _ _ before after item continues =>
      subst item
      refine ⟨w, continues, fun rest => ?_⟩
      rw [List.append_assoc, List.cons_append, List.append_assoc, List.append_assoc,
        List.cons_append, nextElement?, skipSpace_spaces before (by decide)]
      dsimp only
      rw [if_neg (by decide), if_neg Bool.false_ne_true, if_pos rfl,
        skipSpace_spaces after visible]
      dsimp only
      rw [if_neg notEnd]

theorem endList_iff :
    endList s = .ok rest ↔ ∃ ws, s = ws ++ closeBracket :: rest ∧ Spaces ws := by
  constructor
  · intro taken
    obtain ⟨ws, shown, before⟩ := skipSpace_parts s
    rw [endList] at taken
    split at taken
    · cases taken
    next b r visible =>
      split at taken
      next same =>
        cases taken
        exact ⟨ws, by rw [shown, visible, same], before⟩
      · split at taken
        · split at taken <;> cases taken
        · cases taken
  · rintro ⟨ws, rfl, before⟩
    rw [endList, skipSpace_spaces before (by decide)]
    rfl

theorem ends_of_continues {α : Type} {Item : α → Bytes → Prop} {as : List α}
    (continues : Continues closeBracket Item as w) (rest : Bytes) : Ends (w ++ rest) := by
  cases continues with
  | nil before =>
    rw [List.append_assoc]
    exact ends_of_separates before (.inr (.inl rfl)) rest
  | cons before after item more =>
    rw [List.append_assoc]
    exact ends_of_separates before (.inl rfl) _

end

namespace Reads

variable {αs : List Type} {fields : Fields αs} {shape : Shape αs} {t : Tuple αs} {w s rest : Bytes}
  {expected : String} {first : Bool}

/-- At the end of a list all other fields have to be ones that may be absent. -/
theorem readElements_closed (reads : Reads fields shape) (index : Nat) {s' : Bytes}
    (closed : nextElement? first s = .ok none) :
    fields.readElements expected index first s = .ok (t, s') ↔ s' = s ∧ shape.InOrder [] t := by
  induction reads generalizing index with
  | nil =>
    constructor
    · intro taken
      cases taken
      exact ⟨rfl, rfl⟩
    · rintro ⟨rfl, -⟩
      rfl
  | @cons α αs field fields f shape name absent exact others ih =>
    obtain ⟨a, t⟩ := t
    have step : (Fields.cons field fields).readElements expected index first s =
        field.absent.elim (.error (.wrongLength index expected)) fun a =>
          fields.readElements expected (index + 1) first s >>= fun rest =>
            .ok ((a, rest.1), rest.2) := by
      rw [Fields.readElements, closed]
      cases field.absent <;> rfl
    rw [step, absent]
    cases value : f.absent with
    | none =>
      constructor
      · intro taken
        cases taken
      · rintro ⟨rfl, given, -⟩
        rw [value] at given
        cases given
    | some a' =>
      constructor
      · intro taken
        obtain ⟨⟨t', s₁⟩, entered, kept⟩ := bind_eq_ok.mp taken
        cases kept
        obtain ⟨rfl, inOrder⟩ := (ih (index + 1)).mp entered
        exact ⟨rfl, value, inOrder⟩
      · rintro ⟨rfl, given, inOrder⟩
        obtain rfl := Option.some.inj (value.symm.trans given)
        rw [Option.elim_some, (ih (index + 1)).mpr ⟨rfl, inOrder⟩]
        rfl

theorem elements_sound (reads : Reads fields shape) {index : Nat} {s' : Bytes}
    (taken : fields.readElements expected index first s = .ok (t, s'))
    (ended : endList s' = .ok rest) :
    ∃ vs w, s = w ++ rest ∧ Upcoming first vs w ∧ shape.InOrder vs t := by
  induction reads generalizing index first s with
  | nil =>
    cases taken
    obtain ⟨ws, rfl, before⟩ := endList_iff.mp ended
    exact ⟨[], ws ++ [closeBracket], by simp, upcoming_nil.mpr ⟨ws, rfl, before⟩, rfl⟩
  | @cons α αs field fields f shape name absent exact others ih =>
    obtain ⟨next, found, entered⟩ := bind_eq_ok.mp taken
    cases next with
    -- A closed list stays closed, so that nothing is left for the induction to do.
    | none =>
      have all : Reads (.cons field fields) (.cons f shape) := .cons name absent exact others
      obtain ⟨rfl, inOrder⟩ := (all.readElements_closed index found).mp taken
      obtain ⟨ws, rfl, before⟩ := endList_iff.mp ended
      exact ⟨[], ws ++ [closeBracket], by simp, upcoming_nil.mpr ⟨ws, rfl, before⟩, inOrder⟩
    | some s₁ =>
      obtain ⟨lead, rfl, goesOn⟩ := upcoming_of_nextElement? found
      obtain ⟨⟨a, s₂⟩, given, entered⟩ := bind_eq_ok.mp entered
      obtain ⟨⟨t', s₃⟩, elements, kept⟩ := bind_eq_ok.mp entered
      cases kept
      obtain ⟨ws, v, rfl, before, form⟩ := exact.sound given
      obtain ⟨vs, w, rfl, continues, inOrder⟩ := ih elements
      exact ⟨v :: vs, lead ++ (ws ++ (v ++ w)), by simp, goesOn before continues, form, inOrder⟩

theorem elements_complete (reads : Reads fields shape) (index : Nat) {vs : List Bytes}
    (upcoming : Upcoming first vs w) (inOrder : shape.InOrder vs t) (rest : Bytes) :
    ∃ s', (∀ expected, fields.readElements expected index first (w ++ rest) = .ok (t, s')) ∧
      endList s' = .ok rest := by
  induction reads generalizing index first vs w with
  | nil =>
    obtain rfl : vs = [] := inOrder
    obtain ⟨ws, rfl, before⟩ := upcoming_nil.mp upcoming
    exact ⟨_, fun _ => rfl, endList_iff.mpr ⟨ws, by simp, before⟩⟩
  | @cons α αs field fields f shape name absent exact others ih =>
    cases vs with
    | nil =>
      have all : Reads (.cons field fields) (.cons f shape) := .cons name absent exact others
      obtain ⟨ws, rfl, before⟩ := upcoming_nil.mp upcoming
      have shown : ws ++ [closeBracket] ++ rest = ws ++ closeBracket :: rest := by simp
      rw [shown]
      have closed : nextElement? first (ws ++ closeBracket :: rest) = .ok none :=
        nextElement?_eq_none.mpr ⟨ws, rest, rfl, before⟩
      exact ⟨_, fun _ => (all.readElements_closed index closed).mpr ⟨rfl, inOrder⟩,
        endList_iff.mpr ⟨ws, rfl, before⟩⟩
    | cons v vs =>
      obtain ⟨a, t⟩ := t
      obtain ⟨form, inOrder⟩ := inOrder
      obtain ⟨w', continues, found⟩ := nextElement?_of_upcoming upcoming (exact.begins form)
      have given := exact.complete spaces_nil form (ends_of_continues continues rest)
      have after : Upcoming false vs w' := continues
      obtain ⟨s', taken, ended⟩ := ih (index + 1) after inOrder
      refine ⟨s', fun expected => ?_, ended⟩
      rw [List.nil_append] at given
      simp only [Fields.readElements, found, bind, Except.bind, given, taken]

end Reads

end Mailroom.Json
