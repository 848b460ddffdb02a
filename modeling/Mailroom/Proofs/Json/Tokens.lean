import Mailroom.Proofs.Json.Grammar
import Mailroom.Proofs.Json.WrittenValues
import Mailroom.Proofs.Results

/-!
# Strings and numbers

The readers of strings and numbers take what the grammar says, and nothing else. A string ends
itself. A number goes on for as long as it can, so that it has to be known what comes after it.
-/

namespace Mailroom.Json

open Ascii

namespace Text

theorem unescape_codePoint {a b c d : UInt8} {n : Nat} (named : hexUnit? a b c d = some n)
    (notLeading : isLeading n = false) (notTrailing : isTrailing n = false) (seen s : Bytes) :
    unescape seen (backslash :: ofChar 'u' :: a :: b :: c :: d :: s) =
      unescape ((Utf8.encodeCodePoint n).reverse ++ seen) s := by
  have notQuote : backslash ≠ quote := by decide
  rw [unescape.eq_def]
  simp [named, notQuote, notTrailing, notLeading]

theorem unescape_pair {a b c d a' b' c' d' : UInt8} {n n' : Nat}
    (named : hexUnit? a b c d = some n) (leading : isLeading n)
    (named' : hexUnit? a' b' c' d' = some n') (trailing : isTrailing n') (seen s : Bytes) :
    unescape seen (backslash :: ofChar 'u' :: a :: b :: c :: d ::
        backslash :: ofChar 'u' :: a' :: b' :: c' :: d' :: s) =
      unescape ((Utf8.encodeCodePoint (pairValue n n')).reverse ++ seen) s := by
  have notQuote : backslash ≠ quote := by decide
  have notTrailing : isTrailing n = false := by
    simp only [isLeading, Bool.and_eq_true, decide_eq_true_eq] at leading
    simp only [isTrailing, Bool.and_eq_false_iff, decide_eq_false_iff_not]
    omega
  rw [unescape.eq_def]
  simp [named, named', notQuote, notTrailing, leading, trailing]

theorem unescape_of_body {w m : Bytes} (body : Body w m) (seen rest : Bytes) :
    unescape seen (w ++ quote :: rest) = .ok (seen.reverse ++ m, rest) := by
  induction body generalizing seen with
  | nil => simp [unescape_quote]
  | plain notQuote notBackslash notControl more ih =>
    rw [List.cons_append, unescape_plain notQuote notBackslash notControl, ih]
    simp
  | short named more ih =>
    rw [List.cons_append, List.cons_append, unescape_short named, ih]
    simp
  | unit named notLeading notTrailing more ih =>
    simp only [List.cons_append]
    rw [unescape_codePoint named notLeading notTrailing, ih]
    simp
  | pair named leading named' trailing more ih =>
    simp only [List.cons_append]
    rw [unescape_pair named leading named' trailing, ih]
    simp

theorem body_of_unescape {seen s m rest : Bytes} (read : unescape seen s = .ok (m, rest)) :
    ∃ body m', s = body ++ quote :: rest ∧ Body body m' ∧ m = seen.reverse ++ m' := by
  fun_induction unescape seen s
  case case2 =>
    cases read
    exact ⟨[], [], rfl, .nil, (List.append_nil _).symm⟩
  case case11 a b c d n named _ leading e same u isUnit a' b' c' d' s n' named' trailing _ ih =>
    obtain rfl := Decidable.not_not.mp same
    obtain rfl := Decidable.not_not.mp isUnit
    obtain ⟨body, m', rfl, more, value⟩ := ih read
    have form := Body.pair named leading named' trailing more
    exact ⟨_, _, by simp, form, by simp [value]⟩
  case case14 a b c d s n named notTrailing notLeading _ ih =>
    obtain ⟨body, m', rfl, more, value⟩ := ih read
    have form := Body.unit named (by simpa using notLeading) (by simpa using notTrailing) more
    exact ⟨_, _, by simp, form, by simp [value]⟩
  case case16 e s _ b named _ ih =>
    obtain ⟨body, m', rfl, more, value⟩ := ih read
    have form := Body.short named more
    exact ⟨_, _, by simp, form, by simp [value]⟩
  case case19 b s notQuote notBackslash notControl ih =>
    obtain ⟨body, m', rfl, more, value⟩ := ih read
    have form := Body.plain notQuote notBackslash notControl more
    exact ⟨_, _, by simp, form, by simp [value]⟩
  -- Everywhere else the reader has failed.
  all_goals cases read

/-- The reader starts after the opening quote. -/
theorem read_of_spells {w : Bytes} {text : String} (form : Spells w text) :
    ∃ w', w = quote :: w' ∧ ∀ rest, read (w' ++ rest) = .ok (text, rest) := by
  obtain ⟨body, rfl, form⟩ := form
  refine ⟨body ++ [quote], rfl, ?_⟩
  intro rest
  have unescaped := unescape_of_body form [] rest
  rw [read, List.append_assoc, List.singleton_append, unescaped]
  simp

theorem spells_of_read {s rest : Bytes} {text : String} (taken : read s = .ok (text, rest)) :
    ∃ w', s = w' ++ rest ∧ Spells (quote :: w') text := by
  rw [read] at taken
  split at taken
  · cases taken
  next bytes rest' unescaped =>
    obtain ⟨body, m, rfl, form, rfl⟩ := body_of_unescape unescaped
    split at taken
    next text' decoded =>
      cases taken
      have same := Utf8.decode?_eq_some_iff.mp decoded
      exact ⟨body ++ [quote], by simp, body, rfl, same ▸ form⟩
    · cases taken

theorem starts_of_spells {w : Bytes} {text : String} (form : Spells w text) :
    ∃ w', w = quote :: w' := by
  obtain ⟨body, rfl, -⟩ := form
  exact ⟨_, rfl⟩

theorem starts_of_quotes {w body : Bytes} (form : Quotes w body) : ∃ w', w = quote :: w' :=
  ⟨_, form.1⟩

theorem skip_quote (s : Bytes) : skip (quote :: s) = .ok s := by
  rw [skip.eq_def]
  simp

theorem skip_of_loose {w : Bytes} (body : Loose w) (rest : Bytes) :
    skip (w ++ quote :: rest) = .ok rest := by
  have notQuote : backslash ≠ quote := by decide
  induction body with
  | nil => exact skip_quote rest
  | plain other notBackslash notControl more ih =>
    rw [List.cons_append, skip.eq_def]
    simp only [if_neg other, if_neg notBackslash, if_neg notControl, ih]
  | @short e b w named more ih =>
    have notUnit : e ≠ ofChar 'u' := by
      rintro rfl
      have unnamed : shortEscape? (ofChar 'u') = none := by decide
      rw [unnamed] at named
      cases named
    rw [List.cons_append, List.cons_append, skip.eq_def]
    simp only [if_neg notQuote, if_neg notUnit, named, if_true, ih]
  | unit named more ih =>
    simp only [List.cons_append]
    rw [skip.eq_def]
    simp [named, notQuote, ih]

theorem loose_of_skip {s rest : Bytes} (taken : skip s = .ok rest) :
    ∃ body, s = body ++ quote :: rest ∧ Loose body := by
  fun_induction skip s
  case case2 =>
    cases taken
    exact ⟨[], rfl, .nil⟩
  case case5 a b c d s n named _ ih =>
    obtain ⟨body, rfl, more⟩ := ih taken
    have form := Loose.unit named more
    exact ⟨_, by simp, form⟩
  case case7 e s _ b named _ ih =>
    obtain ⟨body, rfl, more⟩ := ih taken
    have form := Loose.short named more
    exact ⟨_, by simp, form⟩
  case case10 b s notQuote notBackslash notControl ih =>
    obtain ⟨body, rfl, more⟩ := ih taken
    have form := Loose.plain notQuote notBackslash notControl more
    exact ⟨_, by simp, form⟩
  all_goals cases taken

theorem skip_of_quotes {w body : Bytes} (form : Quotes w body) :
    ∃ w', w = quote :: w' ∧ ∀ rest, skip (w' ++ rest) = .ok rest := by
  obtain ⟨rfl, loose⟩ := form
  refine ⟨body ++ [quote], rfl, ?_⟩
  intro rest
  rw [List.append_assoc]
  exact skip_of_loose loose rest

theorem quotes_of_skip {s rest : Bytes} (taken : skip s = .ok rest) :
    ∃ w' body, s = w' ++ rest ∧ Quotes (quote :: w') body := by
  obtain ⟨body, rfl, loose⟩ := loose_of_skip taken
  exact ⟨body ++ [quote], body, by simp, rfl, loose⟩

end Text

/-- What is not part of a number that comes before it. -/
def Ends (rest : Bytes) : Prop :=
  ∀ b s, rest = b :: s → isDigit b = false ∧ b ≠ dot ∧ b ≠ ofChar 'e' ∧ b ≠ ofChar 'E'

namespace Literal

variable {w w' w'' s rest : Bytes} {ds : List Nat} {f : Option (List Nat)}
  {e : Option (Bool × List Nat)} {atEnd : Fault} {l : Literal}

theorem someDigits_of_digits (form : Digits w ds)
    (stops : ∀ b s, rest = b :: s → isDigit b = false) (atEnd : Fault) :
    someDigits atEnd (w ++ rest) = .ok (ds, rest) := by
  obtain ⟨given, digits, rfl⟩ := form
  obtain ⟨b, w, rfl⟩ := List.exists_cons_of_ne_nil given
  have nothing : rest.takeWhile isDigit = [] ∧ rest.dropWhile isDigit = rest := by
    cases rest with
    | nil => exact ⟨rfl, rfl⟩
    | cons c rest => simp [stops c rest rfl]
  have first := digits b List.mem_cons_self
  rw [List.cons_append, someDigits, if_pos first, ← List.cons_append, Literal.digits,
    List.takeWhile_append_of_pos digits, List.dropWhile_append_of_pos digits, nothing.1, nothing.2,
    List.append_nil]

theorem digits_of_someDigits (taken : someDigits atEnd s = .ok (ds, rest)) :
    ∃ w, s = w ++ rest ∧ Digits w ds := by
  cases s with
  | nil => cases taken
  | cons b s =>
    rw [someDigits] at taken
    split at taken
    next first =>
      cases taken
      refine ⟨(b :: s).takeWhile isDigit, List.takeWhile_append_dropWhile.symm, ?_, ?_, rfl⟩
      · simp [first]
      · intro d here
        exact List.all_eq_true.mp List.all_takeWhile d here
    · cases taken

theorem readWhole_of_whole (form : Whole w ds)
    (stops : ∀ b s, rest = b :: s → isDigit b = false) (atEnd : Fault) :
    readWhole atEnd (w ++ rest) = .ok (ds, rest) := by
  have taken := someDigits_of_digits form.1 stops atEnd
  rw [readWhole, taken]
  simp only [bind, Except.bind]
  split
  next d ds => exact absurd rfl (form.2 d ds)
  next => rfl

theorem whole_of_readWhole (taken : readWhole atEnd s = .ok (ds, rest)) :
    ∃ w, s = w ++ rest ∧ Whole w ds := by
  obtain ⟨⟨ds', rest'⟩, digits, kept⟩ := bind_eq_ok.mp taken
  obtain ⟨w, rfl, form⟩ := digits_of_someDigits digits
  dsimp only at kept
  split at kept
  · cases kept
  next alone =>
    cases kept
    exact ⟨w, rfl, form, alone⟩

theorem readFraction_of_fraction (form : Fraction w f)
    (stops : ∀ b s, rest = b :: s → isDigit b = false ∧ b ≠ dot) (atEnd : Fault) :
    readFraction atEnd (w ++ rest) = .ok (f, rest) := by
  cases form with
  | none =>
    cases rest with
    | nil => rfl
    | cons b s => rw [List.nil_append, readFraction, if_neg (stops b s rfl).2]
  | some digits =>
    have taken := someDigits_of_digits digits (fun b s h => (stops b s h).1) atEnd
    rw [List.cons_append, readFraction, if_pos rfl, taken]
    rfl

theorem fraction_of_readFraction (taken : readFraction atEnd s = .ok (f, rest)) :
    ∃ w, s = w ++ rest ∧ Fraction w f := by
  cases s with
  | nil =>
    cases taken
    exact ⟨[], rfl, .none⟩
  | cons b s =>
    rw [readFraction] at taken
    split at taken
    next point =>
      obtain ⟨⟨ds, rest'⟩, digits, kept⟩ := bind_eq_ok.mp taken
      cases kept
      obtain ⟨w, rfl, form⟩ := digits_of_someDigits digits
      subst point
      exact ⟨dot :: w, rfl, .some form⟩
    · cases taken
      exact ⟨[], rfl, .none⟩

theorem exponentSign_of_sign {negative : Bool} (sign : Sign w negative) (digits : Digits w' ds)
    (rest : Bytes) : exponentSign (w ++ (w' ++ rest)) = (negative, w' ++ rest) := by
  obtain ⟨given, all, -⟩ := digits
  obtain ⟨b, w', rfl⟩ := List.exists_cons_of_ne_nil given
  have digit : isDigit b := all b List.mem_cons_self
  cases sign with
  | none =>
    have notMinus : b ≠ minus := by
      rintro rfl
      exact absurd digit (by decide)
    have notPlus : b ≠ plus := by
      rintro rfl
      exact absurd digit (by decide)
    rw [List.nil_append, List.cons_append, exponentSign, if_neg notMinus, if_neg notPlus]
  | plus => rfl
  | minus => rfl

theorem sign_of_exponentSign {negative : Bool} (taken : exponentSign s = (negative, rest)) :
    ∃ w, s = w ++ rest ∧ Sign w negative := by
  cases s with
  | nil =>
    cases taken
    exact ⟨[], rfl, .none⟩
  | cons b s =>
    rw [exponentSign] at taken
    split at taken
    next same =>
      cases taken
      exact ⟨[minus], same ▸ rfl, .minus⟩
    next =>
      split at taken
      next same =>
        cases taken
        exact ⟨[plus], same ▸ rfl, .plus⟩
      · cases taken
        exact ⟨[], rfl, .none⟩

theorem readExponent_of_exponent (form : Exponent w e) (ends : Ends rest) (atEnd : Fault) :
    readExponent atEnd (w ++ rest) = .ok (e, rest) := by
  cases form with
  | none =>
    cases rest with
    | nil => rfl
    | cons b s =>
      obtain ⟨-, -, notSmall, notLarge⟩ := ends b s rfl
      have other : ¬(b = ofChar 'e' || b = ofChar 'E') := by simpa using ⟨notSmall, notLarge⟩
      rw [List.nil_append, readExponent, if_neg other]
  | @some b w w' negative ds letter sign digits =>
    have named : b = ofChar 'e' || b = ofChar 'E' := by simpa using letter
    have taken := someDigits_of_digits digits (fun b s h => (ends b s h).1) atEnd
    rw [List.cons_append, List.append_assoc, readExponent, if_pos named,
      exponentSign_of_sign sign digits]
    dsimp only
    rw [taken]
    rfl

theorem exponent_of_readExponent (taken : readExponent atEnd s = .ok (e, rest)) :
    ∃ w, s = w ++ rest ∧ Exponent w e := by
  cases s with
  | nil =>
    cases taken
    exact ⟨[], rfl, .none⟩
  | cons b s =>
    rw [readExponent] at taken
    split at taken
    next named =>
      rcases signed : exponentSign s with ⟨negative, s'⟩
      rw [signed] at taken
      obtain ⟨⟨ds, rest'⟩, digits, kept⟩ := bind_eq_ok.mp taken
      cases kept
      obtain ⟨w, rfl, sign⟩ := sign_of_exponentSign signed
      obtain ⟨w', rfl, form⟩ := digits_of_someDigits digits
      exact ⟨b :: (w ++ w'), by simp, .some (by simpa using named) sign form⟩
    · cases taken
      exact ⟨[], rfl, .none⟩

/-- An exponent and what ends a number end a fraction. -/
theorem stops_exponent (form : Exponent w e) (ends : Ends rest) :
    ∀ b s, w ++ rest = b :: s → isDigit b = false ∧ b ≠ dot := by
  intro b s shown
  cases form with
  | none => exact ⟨(ends b s shown).1, (ends b s shown).2.1⟩
  | some letter sign digits =>
    obtain ⟨rfl, -⟩ := List.cons.inj shown
    rcases letter with rfl | rfl <;> decide

/-- A fraction and what ends it end the digits before the point. -/
theorem stops_fraction (form : Fraction w f)
    (stops : ∀ b s, rest = b :: s → isDigit b = false ∧ b ≠ dot) :
    ∀ b s, w ++ rest = b :: s → isDigit b = false := by
  intro b s shown
  cases form with
  | none => exact (stops b s shown).1
  | some digits =>
    obtain ⟨rfl, -⟩ := List.cons.inj shown
    decide

theorem readUnsigned_of_parts (whole : Whole w ds) (fraction : Fraction w' f)
    (exponent : Exponent w'' e) (ends : Ends rest) (negative : Bool) (atEnd : Fault) :
    readUnsigned atEnd negative (w ++ (w' ++ (w'' ++ rest))) =
      .ok (⟨negative, ds, f, e⟩, rest) := by
  have stops := stops_exponent exponent ends
  have digits := readWhole_of_whole whole (stops_fraction fraction stops) atEnd
  have point := readFraction_of_fraction fraction stops atEnd
  have power := readExponent_of_exponent exponent ends atEnd
  rw [readUnsigned, digits]
  simp only [bind, Except.bind, point, power]

theorem parts_of_readUnsigned {negative : Bool}
    (taken : readUnsigned atEnd negative s = .ok (l, rest)) :
    ∃ w w' w'' ds f e, s = w ++ (w' ++ (w'' ++ rest)) ∧ l = ⟨negative, ds, f, e⟩ ∧
      Whole w ds ∧ Fraction w' f ∧ Exponent w'' e := by
  obtain ⟨⟨ds, s'⟩, digits, taken⟩ := bind_eq_ok.mp taken
  obtain ⟨⟨f, s''⟩, point, taken⟩ := bind_eq_ok.mp taken
  obtain ⟨⟨e, rest'⟩, power, kept⟩ := bind_eq_ok.mp taken
  cases kept
  obtain ⟨w, rfl, whole⟩ := whole_of_readWhole digits
  obtain ⟨w', rfl, fraction⟩ := fraction_of_readFraction point
  obtain ⟨w'', rfl, exponent⟩ := exponent_of_readExponent power
  exact ⟨w, w', w'', ds, f, e, rfl, rfl, whole, fraction, exponent⟩

theorem read_of_spells (form : Spells w l) (ends : Ends rest) (atEnd : Fault) :
    read atEnd (w ++ rest) = .ok (l, rest) := by
  cases form with
  | @positive w w' w'' ds f e whole fraction exponent =>
    have taken := readUnsigned_of_parts whole fraction exponent ends false atEnd
    obtain ⟨given, all, -⟩ := whole.1
    obtain ⟨b, w, rfl⟩ := List.exists_cons_of_ne_nil given
    have notMinus : b ≠ minus := by
      rintro rfl
      exact absurd (all minus List.mem_cons_self) (by decide)
    rw [List.append_assoc, List.append_assoc, List.cons_append, read, if_neg notMinus]
    exact taken
  | @negative w w' w'' ds f e whole fraction exponent =>
    rw [List.cons_append, read, if_pos rfl, List.append_assoc, List.append_assoc]
    exact readUnsigned_of_parts whole fraction exponent ends true atEnd

theorem spells_of_read (taken : read atEnd s = .ok (l, rest)) :
    ∃ w, s = w ++ rest ∧ Spells w l := by
  cases s with
  | nil => cases taken
  | cons b s =>
    rw [read] at taken
    split at taken
    next same =>
      subst same
      obtain ⟨w, w', w'', ds, f, e, rfl, rfl, whole, fraction, exponent⟩ :=
        parts_of_readUnsigned taken
      exact ⟨_, by simp, .negative whole fraction exponent⟩
    · obtain ⟨w, w', w'', ds, f, e, shown, rfl, whole, fraction, exponent⟩ :=
        parts_of_readUnsigned taken
      exact ⟨_, by simp [shown], .positive whole fraction exponent⟩

end Literal

end Mailroom.Json
