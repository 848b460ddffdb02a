import Mailroom.Proofs.Json.Readers

/-!
# Values that are passed over

Passing over takes exactly a value of any kind. It goes through a value with a bound on how many
values and members it enters, and twice the length of a value is always enough.
-/

namespace Mailroom.Json

open Ascii

theorem value_begins {w : Bytes} (value : Value w) : Begins w := by
  cases value with
  | null form => exact exact_null.begins (a := ()) form
  | flag form => exact exact_flag.begins form
  | number form => exact begins_literal form
  | text form =>
    obtain ⟨w, rfl, -⟩ := Text.skip_of_quotes form
    exact ⟨quote, w, rfl, by decide, by decide⟩
  | list form all => cases form <;> exact ⟨openBracket, _, rfl, by decide, by decide⟩
  | object form all => cases form <;> exact ⟨openBrace, _, rfl, by decide, by decide⟩

/-- From an item that is due up to the end of the list or object that it is in. -/
def Items {α : Type} (closing : UInt8) (Item : α → Bytes → Prop) (good : α → Prop)
    (s rest : Bytes) : Prop :=
  ∃ ws p w a as, s = ws ++ (p ++ (w ++ rest)) ∧ Spaces ws ∧ Item a p ∧
    Continues closing Item as w ∧ ∀ a' ∈ a :: as, good a'

namespace Items

variable {α : Type} {opening closing : UInt8} {Item : α → Bytes → Prop} {good : α → Prop} {a : α}
  {ws ws' p s rest : Bytes}

theorem last (before : Spaces ws) (item : Item a p) (fine : good a) (after : Spaces ws')
    (shown : s = ws ++ (p ++ (ws' ++ closing :: rest))) : Items closing Item good s rest := by
  refine ⟨ws, p, ws' ++ [closing], a, [], ?_, before, item, .nil after, ?_⟩
  · rw [shown]
    simp
  · intro a' here
    obtain rfl := List.mem_singleton.mp here
    exact fine

theorem more {r : Bytes} (before : Spaces ws) (item : Item a p) (fine : good a)
    (after : Spaces ws') (shown : s = ws ++ (p ++ (ws' ++ comma :: r)))
    (others : Items closing Item good r rest) : Items closing Item good s rest := by
  obtain ⟨ws'', p', w, a', as, rfl, before', item', continues, all⟩ := others
  refine ⟨ws, p, _, a, a' :: as, ?_, before, item, .cons after before' item' continues, ?_⟩
  · rw [shown]
    simp
  · intro q here
    rcases List.mem_cons.mp here with rfl | later
    · exact fine
    · exact all q later

/-- Together with the opening byte they are the list or the object. -/
theorem enclosed (items : Items closing Item good s rest) (inside : Spaces ws) :
    ∃ w as, opening :: (ws ++ s) = w ++ rest ∧ Enclosed opening closing Item as w ∧
      ∀ a ∈ as, good a := by
  obtain ⟨ws', p, w, a, as, rfl, before, item, continues, all⟩ := items
  refine ⟨_, a :: as, ?_, .cons (spaces_append inside before) item continues, all⟩
  simp

end Items

theorem enclosed_nil {α : Type} {opening closing : UInt8} {Item : α → Bytes → Prop} {ws : Bytes}
    (inside : Spaces ws) (rest : Bytes) :
    ∃ w, opening :: (ws ++ closing :: rest) = w ++ rest ∧ Enclosed opening closing Item [] w :=
  ⟨_, by simp, .nil inside⟩

/-- What passing over takes, with a certain bound. -/
structure Takes (fuel : Nat) : Prop where
  value : ∀ {s rest}, skipValueWith fuel s = .ok rest →
    ∃ ws w, s = ws ++ (w ++ rest) ∧ Spaces ws ∧ Value w
  elements : ∀ {s rest}, skipElementsWith fuel s = .ok rest →
    Items closeBracket Eq Value s rest
  members : ∀ {s rest}, skipMembersWith fuel s = .ok rest →
    Items closeBrace (Member Text.Quotes) (fun m => Value m.2) s rest

namespace Takes

variable {fuel : Nat} {s rest : Bytes}

theorem value_succ (takes : Takes fuel) (taken : skipValueWith (fuel + 1) s = .ok rest) :
    ∃ ws w, s = ws ++ (w ++ rest) ∧ Spaces ws ∧ Value w := by
  obtain ⟨ws, shown, spaces⟩ := skipSpace_parts s
  rw [skipValueWith] at taken
  split at taken
  · cases taken
  next b r visible =>
    rw [visible] at shown
    have found : ∃ w, b :: r = w ++ rest ∧ Value w := by
      split at taken
      next same => exact ⟨_, by rw [same, eq_of_readWord taken]; rfl, .null rfl⟩
      split at taken
      next same => exact ⟨_, by rw [same, eq_of_readWord taken]; rfl, .flag (b := true) rfl⟩
      split at taken
      next same => exact ⟨_, by rw [same, eq_of_readWord taken]; rfl, .flag (b := false) rfl⟩
      split at taken
      next =>
        obtain ⟨⟨l, rest'⟩, literal, kept⟩ := bind_eq_ok.mp taken
        cases kept
        obtain ⟨w, parts, form⟩ := Literal.spells_of_read literal
        exact ⟨w, parts, .number form⟩
      split at taken
      next same =>
        obtain ⟨w, body, rfl, form⟩ := Text.quotes_of_skip taken
        exact ⟨quote :: w, same ▸ rfl, .text form⟩
      split at taken
      next same =>
        obtain ⟨ws', shown', inside⟩ := skipSpace_parts r
        split at taken
        · cases taken
        next c r' visible' =>
          rw [visible'] at shown'
          rw [same, shown']
          split at taken
          next ends =>
            cases taken
            obtain ⟨w, parts, form⟩ := enclosed_nil inside rest
            exact ⟨w, ends ▸ parts, .list form nofun⟩
          · obtain ⟨w, vs, parts, form, all⟩ := (takes.elements taken).enclosed inside
            exact ⟨w, parts, .list form all⟩
      split at taken
      next same =>
        obtain ⟨ws', shown', inside⟩ := skipSpace_parts r
        split at taken
        · cases taken
        next c r' visible' =>
          rw [visible'] at shown'
          rw [same, shown']
          split at taken
          next ends =>
            cases taken
            obtain ⟨w, parts, form⟩ := enclosed_nil inside rest
            exact ⟨w, ends ▸ parts, .object form nofun⟩
          · obtain ⟨w, ms, parts, form, all⟩ := (takes.members taken).enclosed inside
            exact ⟨w, parts, .object form all⟩
      · cases taken
    obtain ⟨w, parts, value⟩ := found
    exact ⟨ws, w, by rw [shown, parts], spaces, value⟩

theorem elements_succ (takes : Takes fuel) (taken : skipElementsWith (fuel + 1) s = .ok rest) :
    Items closeBracket Eq Value s rest := by
  rw [skipElementsWith] at taken
  split at taken
  · cases taken
  next s' first =>
    obtain ⟨ws, v, shown, before, value⟩ := takes.value first
    obtain ⟨ws', shown', after⟩ := skipSpace_parts s'
    split at taken
    · cases taken
    next b r visible =>
      rw [visible] at shown'
      rw [shown'] at shown
      split at taken
      next same =>
        subst same
        exact .more before rfl value after shown (takes.elements taken)
      next =>
        split at taken
        next same =>
          cases taken
          subst same
          exact .last before rfl value after shown
        · cases taken

theorem members_succ (takes : Takes fuel) (taken : skipMembersWith (fuel + 1) s = .ok rest) :
    Items closeBrace (Member Text.Quotes) (fun m => Value m.2) s rest := by
  obtain ⟨ws, shown, before⟩ := skipSpace_parts s
  rw [skipMembersWith] at taken
  split at taken
  · cases taken
  next b r visible =>
    rw [visible] at shown
    split at taken
    · cases taken
    next same =>
      obtain rfl := Decidable.not_not.mp same
      split at taken
      · cases taken
      next s₁ key =>
        obtain ⟨k, body, rfl, quotes⟩ := Text.quotes_of_skip key
        split at taken
        · cases taken
        next s₂ between =>
          obtain ⟨ws₁, rfl, before'⟩ := parts_of_readColon between
          split at taken
          · cases taken
          next s₃ given =>
            obtain ⟨ws₂, v, rfl, after', value⟩ := takes.value given
            have member : Member Text.Quotes (body, v) _ := .intro quotes before' after'
            obtain ⟨ws₃, shown', after⟩ := skipSpace_parts s₃
            split at taken
            · cases taken
            next c r' visible' =>
              rw [visible'] at shown'
              rw [shown'] at shown
              split at taken
              next same =>
                subst same
                refine .more before member value after ?_ (takes.members taken)
                rw [shown]
                simp
              next =>
                split at taken
                next same =>
                  cases taken
                  subst same
                  refine .last before member value after ?_
                  rw [shown]
                  simp
                · cases taken

theorem all (fuel : Nat) : Takes fuel := by
  induction fuel with
  | zero =>
    constructor <;>
    · intro s rest taken
      cases taken
  | succ fuel ih => exact ⟨ih.value_succ, ih.elements_succ, ih.members_succ⟩

end Takes

/-- A value is passed over, with a bound of twice its length. -/
def Skips (v : Bytes) : Prop :=
  ∀ {fuel ws rest}, Spaces ws → Ends rest → 2 * v.length ≤ fuel →
    skipValueWith fuel (ws ++ (v ++ rest)) = .ok rest

section

variable {fuel : Nat} {ws w s : Bytes}

theorem skipElementsWith_of_continues {v : Bytes} {vs : List Bytes}
    (continues : Continues closeBracket Eq vs w) (skips : ∀ v' ∈ v :: vs, Skips v')
    (before : Spaces ws) (rest : Bytes) (enough : 2 * (v.length + w.length) ≤ fuel + 1) :
    skipElementsWith fuel (ws ++ (v ++ (w ++ rest))) = .ok rest := by
  induction continues generalizing fuel ws v with
  | @nil ws' after =>
    rw [List.length_append, List.length_singleton] at enough
    obtain ⟨fuel, rfl⟩ := Nat.exists_eq_add_one.mpr (by omega : 0 < fuel)
    have ends : Ends (ws' ++ closeBracket :: rest) := ends_of_separates after (.inr (.inl rfl)) rest
    have taken := skips v List.mem_cons_self before ends (by omega : 2 * v.length ≤ fuel)
    rw [List.append_assoc, List.singleton_append, skipElementsWith, taken]
    dsimp only
    rw [skipSpace_spaces after (by decide)]
    rfl
  | @cons ws' ws'' p w v' vs after before' item more ih =>
    subst item
    simp only [List.length_append, List.length_cons] at enough
    obtain ⟨fuel, rfl⟩ := Nat.exists_eq_add_one.mpr (by omega : 0 < fuel)
    have ends := ends_of_separates after (.inl rfl) (ws'' ++ (v' ++ (w ++ rest)))
    have taken := skips v List.mem_cons_self before ends (by omega : 2 * v.length ≤ fuel)
    have others := ih (fun q here => skips q (List.mem_cons_of_mem _ here)) before'
      (by omega : 2 * (v'.length + w.length) ≤ fuel + 1)
    simp only [List.append_assoc, List.cons_append]
    rw [skipElementsWith, taken]
    dsimp only
    rw [skipSpace_spaces after (by decide)]
    exact others

/-- A member is passed over, and what comes after it decides how to go on. -/
theorem skipMembersWith_member {p : Bytes} {m : Bytes × Bytes} (member : Member Text.Quotes m p)
    (skips : Skips m.2) (before : Spaces ws) (ends : Ends s) {b : UInt8} {s' : Bytes}
    (visible : skipSpace s = b :: s') (enough : 2 * p.length ≤ fuel) :
    skipMembersWith (fuel + 1) (ws ++ (p ++ s)) =
      if b = comma then skipMembersWith fuel s'
      else if b = closeBrace then .ok s'
      else .error .expectedCommaOrBrace := by
  cases member with
  | @intro k ws' ws'' v body key before' after =>
    obtain ⟨k, rfl, skipped⟩ := Text.skip_of_quotes key
    simp only [List.length_append, List.length_cons] at enough
    have taken : skipValueWith fuel (ws'' ++ (v ++ s)) = .ok s := by
      apply skips after ends
      dsimp only
      omega
    simp only [List.append_assoc, List.cons_append]
    rw [skipMembersWith, skipSpace_spaces before (by decide)]
    simp only [ne_eq, not_true, if_false, skipped, readColon_spaces before', taken, visible]

/-- A member starts with the quote of its key. -/
theorem starts_member {κ : Type} {Key : Bytes → κ → Prop} {p : Bytes} {m : κ × Bytes}
    (member : Member Key m p) (starts : ∀ {k name}, Key k name → ∃ k', k = quote :: k') :
    ∃ p', p = quote :: p' := by
  obtain ⟨key, -, -⟩ := member
  obtain ⟨k', rfl⟩ := starts key
  exact ⟨_, rfl⟩

theorem skipMembersWith_of_continues {p : Bytes} {m : Bytes × Bytes} {ms : List (Bytes × Bytes)}
    (member : Member Text.Quotes m p) (continues : Continues closeBrace (Member Text.Quotes) ms w)
    (skips : ∀ m' ∈ m :: ms, Skips m'.2) (before : Spaces ws) (rest : Bytes)
    (enough : 2 * (p.length + w.length) ≤ fuel + 1) :
    skipMembersWith fuel (ws ++ (p ++ (w ++ rest))) = .ok rest := by
  induction continues generalizing fuel ws p m with
  | @nil ws' after =>
    rw [List.length_append, List.length_singleton] at enough
    obtain ⟨fuel, rfl⟩ := Nat.exists_eq_add_one.mpr (by omega : 0 < fuel)
    have ends : Ends (ws' ++ closeBrace :: rest) := ends_of_separates after (.inr (.inr rfl)) rest
    have visible := skipSpace_spaces after (by decide : isSpace closeBrace = false) rest
    rw [List.append_assoc, List.singleton_append,
      skipMembersWith_member member (skips m List.mem_cons_self) before ends visible (by omega)]
    rfl
  | @cons ws' ws'' p' w m' ms after before' member' more ih =>
    simp only [List.length_append, List.length_cons] at enough
    obtain ⟨fuel, rfl⟩ := Nat.exists_eq_add_one.mpr (by omega : 0 < fuel)
    have ends := ends_of_separates after (.inl rfl) (ws'' ++ (p' ++ (w ++ rest)))
    have visible := skipSpace_spaces after (by decide : isSpace comma = false)
      (ws'' ++ (p' ++ (w ++ rest)))
    have others := ih member' (fun q here => skips q (List.mem_cons_of_mem _ here)) before'
      (by omega : 2 * (p'.length + w.length) ≤ fuel + 1)
    simp only [List.append_assoc, List.cons_append]
    rw [skipMembersWith_member member (skips m List.mem_cons_self) before ends visible (by omega)]
    exact others

end

/-- A value is not empty, so that its bound is not zero. -/
theorem skips_of_succ {v : Bytes} (begins : Begins v)
    (taken : ∀ fuel ws rest, Spaces ws → Ends rest → 2 * v.length ≤ fuel + 1 →
      skipValueWith (fuel + 1) (ws ++ (v ++ rest)) = .ok rest) : Skips v := by
  intro fuel ws rest before ends enough
  obtain ⟨b, v, rfl, -⟩ := begins
  rw [List.length_cons] at enough
  obtain ⟨fuel, rfl⟩ := Nat.exists_eq_add_one.mpr (by omega : 0 < fuel)
  exact taken fuel ws rest before ends (by rw [List.length_cons]; omega)

theorem skips_number {w : Bytes} {l : Literal} (form : Literal.Spells w l) : Skips w := by
  refine skips_of_succ (begins_literal form) fun fuel ws rest before ends _ => ?_
  have visible := skipSpace_begins before (begins_literal form) rest
  have taken := Literal.read_of_spells form ends .invalidNumber
  have skipped : Number.skip (w ++ rest) = .ok rest := by
    simp only [Number.skip, taken, bind, Except.bind]
  obtain ⟨b, w, rfl, number⟩ := starts_literal form
  have notNull : b ≠ ofChar 'n' := by
    rintro rfl
    exact absurd number (by decide)
  have notTrue : b ≠ ofChar 't' := by
    rintro rfl
    exact absurd number (by decide)
  have notFalse : b ≠ ofChar 'f' := by
    rintro rfl
    exact absurd number (by decide)
  rw [List.cons_append] at visible skipped
  rw [List.cons_append, skipValueWith, visible]
  simp only [if_neg notNull, if_neg notTrue, if_neg notFalse, number, if_true]
  exact skipped

theorem skips_list {w : Bytes} {vs : List Bytes} (form : ListOf vs w) (all : ∀ v ∈ vs, Value v)
    (skips : ∀ v ∈ vs, Skips v) : Skips w := by
  refine skips_of_succ (value_begins (.list form all)) fun fuel ws rest before _ enough => ?_
  cases form with
  | @nil ws' inside =>
    rw [List.cons_append, List.append_assoc, skipValueWith, skipSpace_spaces before (by decide)]
    dsimp only
    rw [List.singleton_append, skipSpace_spaces inside (by decide)]
    rfl
  | @cons ws' p w v vs inside item continues =>
    subst item
    have begins := value_begins (all v List.mem_cons_self)
    have visible := skipSpace_begins inside begins (w ++ rest)
    simp only [List.length_cons, List.length_append] at enough
    have others := skipElementsWith_of_continues continues skips spaces_nil rest
      (by omega : 2 * (v.length + w.length) ≤ fuel + 1)
    obtain ⟨c, v, rfl, -, notEnd⟩ := begins
    simp only [List.cons_append, List.append_assoc, List.nil_append] at visible others ⊢
    rw [skipValueWith, skipSpace_spaces before (by decide)]
    dsimp only
    rw [visible]
    dsimp only
    rw [if_neg notEnd, others]
    rfl

theorem skips_object {w : Bytes} {ms : List (Bytes × Bytes)} (form : ObjectOf Text.Quotes ms w)
    (all : ∀ m ∈ ms, Value m.2) (skips : ∀ m ∈ ms, Skips m.2) : Skips w := by
  refine skips_of_succ (value_begins (.object form all)) fun fuel ws rest before _ enough => ?_
  cases form with
  | @nil ws' inside =>
    rw [List.cons_append, List.append_assoc, skipValueWith, skipSpace_spaces before (by decide)]
    dsimp only
    rw [List.singleton_append, skipSpace_spaces inside (by decide)]
    rfl
  | @cons ws' p w m ms inside member continues =>
    simp only [List.length_cons, List.length_append] at enough
    have others := skipMembersWith_of_continues member continues skips spaces_nil rest
      (by omega : 2 * (p.length + w.length) ≤ fuel + 1)
    obtain ⟨p, rfl⟩ := starts_member member Text.starts_of_quotes
    simp only [List.cons_append, List.append_assoc, List.nil_append] at others ⊢
    rw [skipValueWith, skipSpace_spaces before (by decide)]
    dsimp only
    rw [skipSpace_spaces inside (by decide)]
    exact others

/-- Every value is passed over. Its first byte tells which kind it is of. -/
theorem skips_value {v : Bytes} (value : Value v) : Skips v := by
  induction value with
  | @null w form =>
    refine skips_of_succ (value_begins (.null form)) fun fuel ws rest before _ _ => ?_
    obtain rfl : w = ofChar 'n' :: ullWord := form
    rw [List.cons_append, skipValueWith, skipSpace_spaces before (by decide)]
    exact readWord_append ullWord rest
  | @flag w b form =>
    refine skips_of_succ (value_begins (.flag form)) fun fuel ws rest before _ _ => ?_
    cases b with
    | true =>
      obtain rfl : w = ofChar 't' :: rueWord := form
      rw [List.cons_append, skipValueWith, skipSpace_spaces before (by decide)]
      exact readWord_append rueWord rest
    | false =>
      obtain rfl : w = ofChar 'f' :: alseWord := form
      rw [List.cons_append, skipValueWith, skipSpace_spaces before (by decide)]
      exact readWord_append alseWord rest
  | number form => exact skips_number form
  | text form =>
    refine skips_of_succ (value_begins (.text form)) fun fuel ws rest before _ _ => ?_
    obtain ⟨w, rfl, skipped⟩ := Text.skip_of_quotes form
    rw [List.cons_append, skipValueWith, skipSpace_spaces before (by decide)]
    exact skipped rest
  | list form all ih => exact skips_list form all ih
  | object form all ih => exact skips_object form all ih

/-- Passing over takes exactly the values of any kind. -/
theorem skipValue_complete {ws v rest : Bytes} (before : Spaces ws) (value : Value v)
    (ends : Ends rest) : skipValue (ws ++ (v ++ rest)) = .ok rest := by
  rw [skipValue]
  apply skips_value value before ends
  simp only [List.length_append]
  omega

theorem value_of_skipValue {s rest : Bytes} (taken : skipValue s = .ok rest) :
    ∃ ws v, s = ws ++ (v ++ rest) ∧ Spaces ws ∧ Value v :=
  (Takes.all _).value taken

end Mailroom.Json
