import Mailroom.Proofs.Json.Tokens

/-!
# Exact readers

A reader is exact for a form if it reads what has the form, with white space in front of it, and
nothing else. The readers of single values are shown to be exact here.
-/

namespace Mailroom.Json

open Ascii

/-- What a value begins with: no white space, and not the end of a list. -/
def Begins (w : Bytes) : Prop := ∃ b w', w = b :: w' ∧ isSpace b = false ∧ b ≠ closeBracket

/-- A reader takes exactly what has a certain form. What follows may not be part of a number. -/
structure Exact {α : Type} (read : Reader α) (Spells : Bytes → α → Prop) : Prop where
  sound : ∀ {s rest a}, read s = .ok (a, rest) →
    ∃ ws w, s = ws ++ (w ++ rest) ∧ Spaces ws ∧ Spells w a
  complete : ∀ {ws w rest a}, Spaces ws → Spells w a → Ends rest →
    read (ws ++ (w ++ rest)) = .ok (a, rest)
  begins : ∀ {w a}, Spells w a → Begins w

section

variable {ws ws' w s rest : Bytes} {b : UInt8}

theorem spaces_nil : Spaces [] := fun _ h => by cases h

theorem spaces_append (before : Spaces ws) (after : Spaces ws') : Spaces (ws ++ ws') := by
  intro b here
  rcases List.mem_append.mp here with there | there
  · exact before b there
  · exact after b there

theorem skipSpace_spaces (spaces : Spaces ws) (visible : isSpace b = false) (s : Bytes) :
    skipSpace (ws ++ b :: s) = b :: s := by
  rw [skipSpace, List.dropWhile_append_of_pos spaces]
  exact skipSpace_cons visible s

theorem skipSpace_begins (spaces : Spaces ws) (begins : Begins w) (rest : Bytes) :
    skipSpace (ws ++ (w ++ rest)) = w ++ rest := by
  obtain ⟨b, w, rfl, visible, -⟩ := begins
  exact skipSpace_spaces spaces visible (w ++ rest)

theorem skipSpace_parts (s : Bytes) : ∃ ws, s = ws ++ skipSpace s ∧ Spaces ws := by
  refine ⟨s.takeWhile isSpace, List.takeWhile_append_dropWhile.symm, ?_⟩
  intro b here
  exact List.all_eq_true.mp List.all_takeWhile b here

theorem spaces_of_readEnd (ended : readEnd s = .ok ()) : Spaces s := by
  obtain ⟨ws, shown, spaces⟩ := skipSpace_parts s
  rw [readEnd] at ended
  split at ended
  next nothing =>
    rw [shown, nothing, List.append_nil]
    exact spaces
  · cases ended

/-- What separates the items of lists and objects, or ends them. -/
def Separates (b : UInt8) : Prop := b = comma ∨ b = closeBracket ∨ b = closeBrace

theorem ends_of_separates (spaces : Spaces ws) (separates : Separates b) (s : Bytes) :
    Ends (ws ++ b :: s) := by
  intro c s' shown
  have first : isSpace c ∨ Separates c := by
    cases ws with
    | nil =>
      obtain ⟨rfl, -⟩ := List.cons.inj shown
      exact .inr separates
    | cons d ws =>
      obtain ⟨rfl, -⟩ := List.cons.inj shown
      exact .inl (spaces d List.mem_cons_self)
  rcases first with space | rfl | rfl | rfl
  · simp only [isSpace, Bool.or_eq_true, decide_eq_true_eq] at space
    rcases space with ((rfl | rfl) | rfl) | rfl <;> decide
  · decide
  · decide
  · decide

theorem readWord_append (letters rest : Bytes) : readWord letters (letters ++ rest) = .ok rest := by
  induction letters with
  | nil => cases rest <;> rfl
  | cons l ls ih =>
    rw [List.cons_append, readWord, if_pos rfl]
    exact ih

theorem eq_of_readWord {letters : Bytes} (taken : readWord letters s = .ok rest) :
    s = letters ++ rest := by
  induction letters generalizing s with
  | nil =>
    cases s <;> cases taken <;> rfl
  | cons l ls ih =>
    cases s with
    | nil => cases taken
    | cons b s =>
      rw [readWord] at taken
      split at taken
      next same => rw [same, List.cons_append, ← ih taken]
      · cases taken

theorem readColon_spaces (spaces : Spaces ws) (s : Bytes) :
    readColon (ws ++ colon :: s) = .ok s := by
  rw [readColon, skipSpace_spaces spaces (by decide)]
  rfl

theorem parts_of_readColon (taken : readColon s = .ok rest) :
    ∃ ws, s = ws ++ colon :: rest ∧ Spaces ws := by
  obtain ⟨ws, shown, spaces⟩ := skipSpace_parts s
  rw [readColon] at taken
  split at taken
  · cases taken
  next b s' visible =>
    split at taken
    next same =>
      cases taken
      exact ⟨ws, by rw [shown, visible, same], spaces⟩
    · cases taken

end

theorem exact_text (expected : String) : Exact (readTextAs expected) Text.Spells where
  sound {s rest text} taken := by
    obtain ⟨ws, shown, spaces⟩ := skipSpace_parts s
    rw [readTextAs] at taken
    split at taken
    · cases taken
    next b r visible =>
      split at taken
      next same =>
        obtain ⟨w, rfl, form⟩ := Text.spells_of_read taken
        subst same
        exact ⟨ws, quote :: w, by rw [shown, visible]; rfl, spaces, form⟩
      · cases taken
  complete {ws w rest text} spaces form _ := by
    obtain ⟨w, rfl, taken⟩ := Text.read_of_spells form
    rw [readTextAs, List.cons_append, skipSpace_spaces spaces (by decide)]
    exact taken rest
  begins form := by
    obtain ⟨w, rfl, -⟩ := Text.read_of_spells form
    exact ⟨quote, w, rfl, by decide, by decide⟩

theorem exact_flag : Exact readFlag SpellsFlag where
  sound {s rest flag} taken := by
    obtain ⟨ws, shown, spaces⟩ := skipSpace_parts s
    rw [readFlag] at taken
    split at taken
    · cases taken
    next b r visible =>
      rw [visible] at shown
      split at taken
      next same =>
        subst same
        obtain ⟨rest', word, kept⟩ := map_eq_ok.mp taken
        cases kept
        exact ⟨ws, _, by rw [shown, eq_of_readWord word]; rfl, spaces, rfl⟩
      next =>
        split at taken
        next same =>
          subst same
          obtain ⟨rest', word, kept⟩ := map_eq_ok.mp taken
          cases kept
          exact ⟨ws, _, by rw [shown, eq_of_readWord word]; rfl, spaces, rfl⟩
        · cases taken
  complete {ws w rest flag} spaces form _ := by
    subst form
    cases flag with
    | true =>
      have word : readWord rueWord (rueWord ++ rest) = .ok rest := readWord_append rueWord rest
      change readFlag (ws ++ ofChar 't' :: (rueWord ++ rest)) = _
      rw [readFlag, skipSpace_spaces spaces (by decide)]
      simp only [if_true, word, Except.map]
    | false =>
      have word : readWord alseWord (alseWord ++ rest) = .ok rest := readWord_append alseWord rest
      have other : ofChar 'f' ≠ ofChar 't' := by decide
      change readFlag (ws ++ ofChar 'f' :: (alseWord ++ rest)) = _
      rw [readFlag, skipSpace_spaces spaces (by decide)]
      simp only [if_neg other, if_true, word, Except.map]
  begins {w flag} form := by
    subst form
    cases flag with
    | true => exact ⟨_, _, rfl, by decide, by decide⟩
    | false => exact ⟨_, _, rfl, by decide, by decide⟩

theorem exact_null : Exact readNull fun w () => SpellsNull w where
  sound {s rest _} taken := by
    obtain ⟨ws, shown, spaces⟩ := skipSpace_parts s
    rw [readNull] at taken
    split at taken
    · cases taken
    next b r visible =>
      rw [visible] at shown
      split at taken
      next same =>
        subst same
        obtain ⟨rest', word, kept⟩ := map_eq_ok.mp taken
        cases kept
        exact ⟨ws, _, by rw [shown, eq_of_readWord word]; rfl, spaces, rfl⟩
      · cases taken
  complete {ws w rest _} spaces form _ := by
    subst form
    have word : readWord ullWord (ullWord ++ rest) = .ok rest := readWord_append ullWord rest
    change readNull (ws ++ ofChar 'n' :: (ullWord ++ rest)) = _
    rw [readNull, skipSpace_spaces spaces (by decide)]
    simp only [if_true, word, Except.map]
  begins {w _} form := by
    subst form
    exact ⟨_, _, rfl, by decide, by decide⟩

theorem exact_nullable {α : Type} {read : Reader α} {Spells : Bytes → α → Prop}
    (exact : Exact read Spells) (notNull : ∀ {w a}, Spells w a → w.head? ≠ some (ofChar 'n')) :
    Exact (readNullable read) (SpellsNullable Spells) where
  sound {s rest a?} taken := by
    obtain ⟨ws, shown, spaces⟩ := skipSpace_parts s
    rw [readNullable] at taken
    split at taken
    next =>
      obtain ⟨⟨a, rest'⟩, given, kept⟩ := map_eq_ok.mp taken
      obtain ⟨ws', w, parts, -, form⟩ := exact.sound given
      obtain ⟨b, w', rfl, -⟩ := exact.begins form
      simp at parts
    next b r visible =>
      rw [visible] at shown
      split at taken
      next same =>
        subst same
        obtain ⟨rest', word, kept⟩ := map_eq_ok.mp taken
        cases kept
        exact ⟨ws, _, by rw [shown, eq_of_readWord word]; rfl, spaces, rfl⟩
      · obtain ⟨⟨a, rest'⟩, given, kept⟩ := map_eq_ok.mp taken
        cases kept
        obtain ⟨ws', w, parts, spaces', form⟩ := exact.sound given
        exact ⟨ws ++ ws', w, by rw [shown, parts]; simp, spaces_append spaces spaces', form⟩
  complete {ws w rest a?} spaces form ends := by
    cases a? with
    | none =>
      obtain rfl : w = ofChar 'n' :: ullWord := form
      have word : readWord ullWord (ullWord ++ rest) = .ok rest := readWord_append ullWord rest
      rw [readNullable, List.cons_append, skipSpace_spaces spaces (by decide)]
      simp only [if_true, word, Except.map]
    | some a =>
      have taken := exact.complete spaces_nil form ends
      have other := notNull form
      have visible := skipSpace_begins spaces (exact.begins form) rest
      obtain ⟨b, w, rfl, -⟩ := exact.begins form
      have notNull : b ≠ ofChar 'n' := fun same => other (same ▸ rfl)
      rw [List.cons_append] at visible
      rw [readNullable, List.cons_append, visible]
      rw [List.nil_append, List.cons_append] at taken
      simp only [if_neg notNull, taken, Except.map]
  begins {w a?} form := by
    cases a? with
    | none => exact exact_null.begins (a := ()) form
    | some a => exact exact.begins form

/-- Only plain digits are a natural number. A minus makes even a zero something else. -/
theorem ofLiteral_eq_natural {l : Literal} {n : Nat} :
    Number.ofLiteral l = .ok (.natural n) ↔
      l.negative = false ∧ l.fraction = none ∧ l.exponent = none ∧ n = Literal.value l.whole ∧
        n < UInt64.size := by
  obtain ⟨negative, whole, fraction, exponent⟩ := l
  constructor
  · intro taken
    rw [Number.ofLiteral] at taken
    dsimp only at taken
    split at taken
    next plain =>
      simp only [Bool.and_eq_true, Option.isNone_iff_eq_none, decide_eq_true_eq] at plain
      obtain ⟨⟨rfl, rfl⟩, fits⟩ := plain
      split at taken
      next positive =>
        cases taken
        exact ⟨by simpa using positive, rfl, rfl, rfl, fits⟩
      · split at taken <;> cases taken
    · split at taken <;> cases taken
  · rintro ⟨rfl, rfl, rfl, rfl, fits⟩
    dsimp only at fits
    simp [Number.ofLiteral, fits]

theorem spells_plain {w : Bytes} {ds : List Nat} :
    Literal.Spells w ⟨false, ds, none, none⟩ ↔ Literal.Whole w ds := by
  constructor
  · intro form
    cases form with
    | positive whole fraction exponent =>
      cases fraction
      cases exponent
      simpa using whole
  · intro whole
    have form := Literal.Spells.positive whole .none .none
    simpa using form

/-- A number starts with a minus or a digit. -/
theorem starts_literal {w : Bytes} {l : Literal} (form : Literal.Spells w l) :
    ∃ b w', w = b :: w' ∧ (b = minus || isDigit b) := by
  cases form with
  | positive whole fraction exponent =>
    obtain ⟨⟨given, all, -⟩, -⟩ := whole
    obtain ⟨b, w, rfl⟩ := List.exists_cons_of_ne_nil given
    exact ⟨b, _, rfl, by simp [all b List.mem_cons_self]⟩
  | negative whole fraction exponent => exact ⟨minus, _, rfl, rfl⟩

theorem begins_literal {w : Bytes} {l : Literal} (form : Literal.Spells w l) : Begins w := by
  obtain ⟨b, w, rfl, number⟩ := starts_literal form
  have first : b = minus ∨ isDigit b := by simpa using number
  rcases first with rfl | digit
  · exact ⟨minus, w, rfl, by decide, by decide⟩
  · refine ⟨b, w, rfl, isSpace_of_isDigit digit, ?_⟩
    rintro rfl
    exact absurd digit (by decide)

theorem exact_natural : Exact readNatural SpellsNatural where
  sound {s rest n} taken := by
    obtain ⟨ws, shown, spaces⟩ := skipSpace_parts s
    rw [readNatural] at taken
    split at taken
    · cases taken
    next b r visible =>
      split at taken
      next =>
        rcases number : Number.read (b :: r) with e | ⟨n' | n' | bits, rest'⟩
        · rw [number] at taken
          cases taken
        · rw [number] at taken
          cases taken
          obtain ⟨⟨l, rest'⟩, literal, kept⟩ := bind_eq_ok.mp number
          obtain ⟨value, natural, kept⟩ := bind_eq_ok.mp kept
          cases kept
          obtain ⟨w, parts, form⟩ := Literal.spells_of_read literal
          obtain ⟨positive, point, power, rfl, fits⟩ := ofLiteral_eq_natural.mp natural
          obtain ⟨negative, ds, fraction, exponent⟩ := l
          subst positive point power
          refine ⟨ws, w, by rw [shown, visible, parts], spaces, ds, spells_plain.mp form, ?_⟩
          exact (UInt64.toNat_ofNat_of_lt' fits).symm
        · rw [number] at taken
          cases taken
        · rw [number] at taken
          cases taken
      · cases taken
  complete {ws w rest n} spaces form ends := by
    obtain ⟨ds, whole, value⟩ := form
    have fits : n.toNat < UInt64.size := n.toNat_lt_size
    have literal := Literal.read_of_spells (spells_plain.mpr whole) ends .endInValue
    have natural : Number.ofLiteral ⟨false, ds, none, none⟩ = .ok (.natural n.toNat) :=
      ofLiteral_eq_natural.mpr ⟨rfl, rfl, rfl, value.symm, fits⟩
    obtain ⟨⟨given, all, -⟩, -⟩ := whole
    obtain ⟨b, w, rfl⟩ := List.exists_cons_of_ne_nil given
    have digit : isDigit b := all b List.mem_cons_self
    rw [List.cons_append] at literal
    have number : Number.read (b :: (w ++ rest)) = .ok (.natural n.toNat, rest) := by
      simp only [Number.read, literal, natural, bind, Except.bind]
    rw [readNatural, List.cons_append, skipSpace_spaces spaces (isSpace_of_isDigit digit)]
    simp [digit, number]
  begins {w n} form := by
    obtain ⟨ds, whole, -⟩ := form
    exact begins_literal (spells_plain.mpr whole)

end Mailroom.Json
