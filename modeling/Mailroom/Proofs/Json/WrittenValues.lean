import Mailroom.Json.Value
import Mailroom.Json.Write

/-!
# Written values read back

A text, a number or a flag is read back as what was written, and none of them has a line feed in
its written form. A number has to be followed by something that ends it, which every value inside
an object is; the other values end themselves.
-/

namespace Mailroom.Json

open Ascii

namespace Text

theorem hexValue?_hexDigit {n : Nat} (h : n < 16) : hexValue? (hexDigit n) = some n := by
  have all : ∀ n, n < 16 → hexValue? (hexDigit n) = some n := by decide
  exact all n h

theorem hexDigit_ne_lineFeed {n : Nat} (h : n < 16) : hexDigit n ≠ lineFeed := by
  have all : ∀ n, n < 16 → hexDigit n ≠ lineFeed := by decide
  exact all n h

theorem encodeCodePoint_of_lt {n : Nat} (h : n < 32) :
    Utf8.encodeCodePoint n = [UInt8.ofNat n] := by
  have all : ∀ n, n < 32 → Utf8.encodeCodePoint n = [UInt8.ofNat n] := by decide
  exact all n h

theorem unescape_quote (seen s : Bytes) : unescape seen (quote :: s) = .ok (seen.reverse, s) := by
  rw [unescape.eq_def]
  simp

theorem unescape_plain {b : UInt8} (notQuote : b ≠ quote) (notBackslash : b ≠ backslash)
    (notControl : ¬ b < space) (seen s : Bytes) :
    unescape seen (b :: s) = unescape (b :: seen) s := by
  rw [unescape.eq_def]
  simp [notQuote, notBackslash, notControl]

theorem unescape_short {e b : UInt8} (named : shortEscape? e = some b) (seen s : Bytes) :
    unescape seen (backslash :: e :: s) = unescape (b :: seen) s := by
  have notUnit : e ≠ ofChar 'u' := by
    rintro rfl
    have unnamed : shortEscape? (ofChar 'u') = none := by decide
    rw [unnamed] at named
    cases named
  have notQuote : backslash ≠ quote := by decide
  rw [unescape.eq_def]
  simp only [if_neg notQuote, if_neg notUnit, named, if_true]

theorem unescape_unit {a b c d : UInt8} {n : Nat} (named : hexUnit? a b c d = some n)
    (small : n < 0xD800) (seen s : Bytes) :
    unescape seen (backslash :: ofChar 'u' :: a :: b :: c :: d :: s) =
      unescape ((Utf8.encodeCodePoint n).reverse ++ seen) s := by
  have notTrailing : isTrailing n = false := by simp [isTrailing]; omega
  have notLeading : isLeading n = false := by simp [isLeading]; omega
  have notQuote : backslash ≠ quote := by decide
  rw [unescape.eq_def]
  simp [named, notQuote, notTrailing, notLeading]

theorem hexUnit?_of_control {b : UInt8} (control : b < space) :
    hexUnit? zero zero (hexDigit (b.toNat / 16)) (hexDigit (b.toNat % 16)) = some b.toNat := by
  have small : b.toNat < 32 := control
  have nought : hexValue? zero = some 0 := by decide
  have high := hexValue?_hexDigit (show b.toNat / 16 < 16 by omega)
  have low := hexValue?_hexDigit (show b.toNat % 16 < 16 by omega)
  simp only [hexUnit?, nought, high, low, Option.bind_eq_bind, Option.bind_some]
  exact congrArg some (by omega)

/-- The three forms that a byte can have in a string. -/
theorem escape_cases (b : UInt8) :
    (∃ e, shortEscape? e = some b ∧ escape b = [backslash, e]) ∨
    (b < space ∧ escape b = [backslash, ofChar 'u', zero, zero, hexDigit (b.toNat / 16),
      hexDigit (b.toNat % 16)]) ∨
    (b ≠ quote ∧ b ≠ backslash ∧ ¬ b < space ∧ escape b = [b]) := by
  unfold escape
  split
  next h => subst h; exact .inl ⟨quote, by decide, rfl⟩
  split
  next h => subst h; exact .inl ⟨backslash, by decide, rfl⟩
  split
  next h => subst h; exact .inl ⟨ofChar 'b', by decide, rfl⟩
  split
  next h => subst h; exact .inl ⟨ofChar 'f', by decide, rfl⟩
  split
  next h => subst h; exact .inl ⟨ofChar 'n', by decide, rfl⟩
  split
  next h => subst h; exact .inl ⟨ofChar 'r', by decide, rfl⟩
  split
  next h => subst h; exact .inl ⟨ofChar 't', by decide, rfl⟩
  split
  next control => exact .inr (.inl ⟨control, rfl⟩)
  next notQuote notBackslash _ _ _ _ _ notControl =>
    exact .inr (.inr ⟨notQuote, notBackslash, notControl, rfl⟩)

/-- Whatever form a byte is written in, reading takes in that byte. -/
theorem unescape_escape (seen : Bytes) (b : UInt8) (s : Bytes) :
    unescape seen (escape b ++ s) = unescape (b :: seen) s := by
  rcases escape_cases b with ⟨e, named, form⟩ | ⟨control, form⟩ | ⟨notQuote, notBackslash, rest⟩
  · rw [form]
    exact unescape_short named seen s
  · have small : b.toNat < 32 := control
    rw [form]
    simp only [List.cons_append, List.nil_append]
    rw [unescape_unit (hexUnit?_of_control control) (by omega), encodeCodePoint_of_lt small]
    simp
  · rw [rest.2]
    exact unescape_plain notQuote notBackslash rest.1 seen s

theorem unescape_flatMap_escape (bytes seen rest : Bytes) :
    unescape seen (bytes.flatMap escape ++ quote :: rest) = .ok (seen.reverse ++ bytes, rest) := by
  induction bytes generalizing seen with
  | nil => simp [unescape_quote]
  | cons b bytes ih =>
    rw [List.flatMap_cons, List.append_assoc, unescape_escape, ih]
    simp

theorem write_eq_cons (s : String) : write s = quote :: (write s).tail := rfl

/-- The reader starts after the opening quote. -/
theorem read_tail_write (s : String) (rest : Bytes) :
    read ((write s).tail ++ rest) = .ok (s, rest) := by
  have body : (write s).tail ++ rest = (Utf8.encode s).flatMap escape ++ quote :: rest := by
    simp [write]
  rw [body, read, unescape_flatMap_escape]
  simp

theorem lineFeed_notMem_escape (b : UInt8) : lineFeed ∉ escape b := by
  rcases escape_cases b with ⟨e, named, form⟩ | ⟨control, form⟩ | ⟨_, _, notControl, form⟩
  · have notLineFeed : lineFeed ≠ e := by
      rintro rfl
      have unnamed : shortEscape? lineFeed = none := by decide
      rw [unnamed] at named
      cases named
    have notBackslash : lineFeed ≠ backslash := by decide
    simp [form, notLineFeed, notBackslash]
  · have small : b.toNat < 32 := control
    have high := hexDigit_ne_lineFeed (show b.toNat / 16 < 16 by omega)
    have low := hexDigit_ne_lineFeed (show b.toNat % 16 < 16 by omega)
    simp only [form, List.mem_cons, high.symm, low.symm]
    decide
  · have notLineFeed : lineFeed ≠ b := by
      rintro rfl
      exact notControl (by decide)
    simpa [form] using notLineFeed

theorem lineFeed_notMem_write (s : String) : lineFeed ∉ write s := by
  have notQuote : lineFeed ≠ quote := by decide
  simp [write, lineFeed_notMem_escape, notQuote]

end Text

theorem skipSpace_cons {b : UInt8} (notSpace : isSpace b = false) (s : Bytes) :
    skipSpace (b :: s) = b :: s := by
  simp [skipSpace, notSpace]

theorem readText_write (s : String) (rest : Bytes) :
    readText (Text.write s ++ rest) = .ok (s, rest) := by
  rw [Text.write_eq_cons, List.cons_append, readText, readTextAs, skipSpace_cons (by decide)]
  simpa using Text.read_tail_write s rest

theorem readFlag_write (b : Bool) (rest : Bytes) :
    readFlag (writeFlag b ++ rest) = .ok (b, rest) := by
  cases b <;> rfl

theorem lineFeed_notMem_writeFlag (b : Bool) : lineFeed ∉ writeFlag b := by
  cases b <;> decide

/-- What comes after a value inside an object. -/
def Closes (rest : Bytes) : Prop := ∃ b s, rest = b :: s ∧ (b = comma ∨ b = closeBrace)

theorem head?_toDigits_ne {n : Nat} (positive : 0 < n) :
    (Nat.toDigits 10 n).head? ≠ some '0' := by
  induction n using Nat.strongRecOn with
  | ind n ih =>
    by_cases small : n < 10
    · have all : ∀ n, n < 10 → 0 < n → (Nat.toDigits 10 n).head? ≠ some '0' := by decide
      exact all n small positive
    · have shorter := ih (n / 10) (by omega) (by omega)
      rw [Nat.toDigits_of_base_le (by omega) (by omega), List.head?_append]
      cases first : (Nat.toDigits 10 (n / 10)).head? with
      | none => exact absurd (List.head?_eq_none_iff.mp first) Nat.toDigits_ne_nil
      | some c => simpa [first] using shorter

theorem toNat_ofChar {c : Char} (digit : c.isDigit) : (ofChar c).toNat = c.toNat := by
  have bound : c.toNat ≤ 57 := by
    simp only [Char.isDigit, Bool.and_eq_true, decide_eq_true_eq] at digit
    exact digit.2
  simp only [ofChar, UInt8.toNat_ofNat']
  omega

theorem isDigit_ofChar {c : Char} (digit : c.isDigit) : isDigit (ofChar c) := by
  have same := toNat_ofChar digit
  simp only [Char.isDigit, Bool.and_eq_true, decide_eq_true_eq] at digit
  simp only [Ascii.isDigit, Bool.and_eq_true, decide_eq_true_eq, UInt8.le_iff_toNat_le, same]
  exact digit

theorem isDigit_of_mem_writeNatural {n : Nat} {b : UInt8} (h : b ∈ writeNatural n) :
    isDigit b := by
  obtain ⟨c, hc, rfl⟩ := List.mem_map.mp h
  exact isDigit_ofChar (Nat.isDigit_of_mem_toDigits (by omega) (by omega) hc)

theorem lineFeed_notMem_writeNatural (n : Nat) : lineFeed ∉ writeNatural n :=
  fun h => absurd (isDigit_of_mem_writeNatural h) (by decide)

theorem writeNatural_eq_cons (n : Nat) : ∃ b s, writeNatural n = b :: s ∧ isDigit b := by
  cases h : writeNatural n with
  | nil => exact absurd (List.map_eq_nil_iff.mp h) Nat.toDigits_ne_nil
  | cons b s => exact ⟨b, s, rfl, isDigit_of_mem_writeNatural (n := n) (by simp [h])⟩

/-- The values of the digits of a number. -/
def decimal (n : Nat) : List Nat := (writeNatural n).map digitValue

theorem foldl_digitValue {cs : List Char} (digits : ∀ c ∈ cs, c.isDigit) (n : Nat) :
    ((cs.map ofChar).map digitValue).foldl (fun n d => n * 10 + d) n =
      Nat.ofDigitChars 10 cs n := by
  induction cs generalizing n with
  | nil => simp
  | cons c cs ih =>
    have head : digitValue (ofChar c) = c.toNat - '0'.toNat := by
      rw [digitValue, toNat_ofChar (digits c List.mem_cons_self)]
      rfl
    rw [List.map_cons, List.map_cons, List.foldl_cons, Nat.ofDigitChars_cons, head,
      Nat.mul_comm n 10]
    exact ih (fun c hc => digits c (List.mem_cons_of_mem _ hc)) _

theorem value_decimal (n : Nat) : Literal.value (decimal n) = n := by
  have digits : ∀ c ∈ Nat.toDigits 10 n, c.isDigit := fun c hc =>
    Nat.isDigit_of_mem_toDigits (by omega) (by omega) hc
  exact (foldl_digitValue digits 0).trans Nat.ofDigitChars_ten_toDigits

/-- A zero in front stands alone. -/
theorem decimal_ne_zero_cons (n d : Nat) (ds : List Nat) : decimal n ≠ 0 :: d :: ds := by
  intro leading
  by_cases zero : n = 0
  · subst zero
    have alone : decimal 0 = [0] := by decide
    rw [alone] at leading
    cases leading
  · cases shown : Nat.toDigits 10 n with
    | nil => exact absurd shown Nat.toDigits_ne_nil
    | cons c cs =>
      have digit : c.isDigit :=
        Nat.isDigit_of_mem_toDigits (b := 10) (n := n) (by omega) (by omega) (by simp [shown])
      have notZero : c ≠ '0' := by
        have first := head?_toDigits_ne (show 0 < n by omega)
        simpa [shown] using first
      rw [decimal, writeNatural, shown] at leading
      have value : c.toNat - 48 = 0 := by
        have head := (List.cons.inj leading).1
        rwa [digitValue, toNat_ofChar digit] at head
      simp only [Char.isDigit, Bool.and_eq_true, decide_eq_true_eq] at digit
      have low : 48 ≤ c.toNat := digit.1
      exact notZero (Char.toNat_inj.mp (show c.toNat = 48 by omega))

theorem digits_writeNatural (n : Nat) {b : UInt8} (notDigit : isDigit b = false) (s : Bytes) :
    Literal.digits (writeNatural n ++ b :: s) = (decimal n, b :: s) := by
  have digits : ∀ d ∈ writeNatural n, isDigit d := fun d h => isDigit_of_mem_writeNatural h
  rw [Literal.digits, List.takeWhile_append_of_pos digits, List.dropWhile_append_of_pos digits]
  simp [notDigit, decimal]

theorem readWhole_writeNatural (atEnd : Fault) (n : Nat) {b : UInt8}
    (notDigit : isDigit b = false) (s : Bytes) :
    Literal.readWhole atEnd (writeNatural n ++ b :: s) = .ok (decimal n, b :: s) := by
  obtain ⟨d, ds, shown, digit⟩ := writeNatural_eq_cons n
  have taken := digits_writeNatural n notDigit s
  rw [shown, List.cons_append] at taken ⊢
  rw [Literal.readWhole, Literal.someDigits, if_pos digit, taken]
  simp only [bind, Except.bind]
  split
  next d ds leading => exact absurd leading (decimal_ne_zero_cons n d ds)
  next => rfl

theorem literal_writeNatural (atEnd : Fault) (n : Nat) {rest : Bytes} (closes : Closes rest) :
    Literal.read atEnd (writeNatural n ++ rest) = .ok (⟨false, decimal n, none, none⟩, rest) := by
  obtain ⟨b, s, rfl, closing⟩ := closes
  have notDigit : isDigit b = false := by rcases closing with rfl | rfl <;> decide
  have notDot : b ≠ dot := by rcases closing with rfl | rfl <;> decide
  have noExponent : (b = ofChar 'e' || b = ofChar 'E') = false := by
    rcases closing with rfl | rfl <;> decide
  have whole := readWhole_writeNatural atEnd n notDigit s
  have fraction : Literal.readFraction atEnd (b :: s) = .ok (none, b :: s) := by
    rw [Literal.readFraction, if_neg notDot]
  have exponent : Literal.readExponent atEnd (b :: s) = .ok (none, b :: s) := by
    rw [Literal.readExponent, noExponent]
    rfl
  obtain ⟨d, ds, shown, digit⟩ := writeNatural_eq_cons n
  have notMinus : d ≠ minus := by rintro rfl; exact absurd digit (by decide)
  rw [shown, List.cons_append] at whole ⊢
  rw [Literal.read, if_neg notMinus, Literal.readUnsigned, whole]
  simp only [bind, Except.bind, fraction, exponent]

theorem isSpace_of_isDigit {b : UInt8} (digit : isDigit b) : isSpace b = false := by
  simp only [isDigit, Bool.and_eq_true, decide_eq_true_eq] at digit
  have low : zero ≤ b := digit.1
  simp only [isSpace, Bool.or_eq_false_iff, decide_eq_false_iff_not]
  refine ⟨⟨⟨?_, ?_⟩, ?_⟩, ?_⟩ <;> (rintro rfl; exact absurd low (by decide))

theorem readNatural_write (n : UInt64) {rest : Bytes} (closes : Closes rest) :
    readNatural (writeNatural n.toNat ++ rest) = .ok (n, rest) := by
  have literal := literal_writeNatural .endInValue n.toNat closes
  have fits : n.toNat < UInt64.size := n.toNat_lt_size
  obtain ⟨d, ds, shown, digit⟩ := writeNatural_eq_cons n.toNat
  rw [shown, List.cons_append] at literal ⊢
  rw [readNatural, skipSpace_cons (isSpace_of_isDigit digit)]
  simp [digit, Number.read, literal, bind, Except.bind, Number.ofLiteral, value_decimal, fits]

end Mailroom.Json
