import Mailroom.Config
import Mailroom.Proofs.Address.Numbers

/-!
# Numbers in variables

A variable is set to a number when its text is decimal digits, perhaps after a plus, with white
space around them or not.
-/

namespace Mailroom

namespace Blank

theorem eq_trim (s : List Char) :
    ∃ before after, s = before ++ trim s ++ after ∧ (∀ c ∈ before, isBlank c) ∧
      ∀ c ∈ after, isBlank c := by
  have blank (s : List Char) : ∀ c ∈ s.takeWhile isBlank, isBlank c :=
    List.all_eq_true.mp List.all_takeWhile
  generalize fromLeft : s.dropWhile isBlank = inner
  refine ⟨s.takeWhile isBlank, (inner.reverse.takeWhile isBlank).reverse, ?_, blank s, ?_⟩
  · have ends : trim s ++ (inner.reverse.takeWhile isBlank).reverse = inner := by
      rw [trim, fromLeft, ← List.reverse_append, List.takeWhile_append_dropWhile,
        List.reverse_reverse]
    rw [List.append_assoc, ends, ← fromLeft, List.takeWhile_append_dropWhile]
  · intro c there
    exact blank _ c (List.mem_reverse.mp there)

theorem dropWhile_blank {before text after : List Char} (front : ∀ c ∈ before, isBlank c)
    (given : text ≠ []) (plain : ∀ c ∈ text, isBlank c = false) :
    (before ++ (text ++ after)).dropWhile isBlank = text ++ after := by
  obtain ⟨c, t, rfl⟩ := List.exists_cons_of_ne_nil given
  rw [List.dropWhile_append_of_pos front, List.cons_append,
    List.dropWhile_cons_of_neg (by simp [plain c])]

theorem trim_between {before text after : List Char} (front : ∀ c ∈ before, isBlank c)
    (back : ∀ c ∈ after, isBlank c) (given : text ≠ []) (plain : ∀ c ∈ text, isBlank c = false) :
    trim (before ++ text ++ after) = text := by
  have fromRight : (after.reverse ++ (text.reverse ++ [])).dropWhile isBlank = text.reverse ++ [] :=
    dropWhile_blank (by simpa using back) (by simpa using given) (by simpa using plain)
  rw [List.append_nil, ← List.reverse_append] at fromRight
  rw [trim, List.append_assoc, dropWhile_blank front given plain, fromRight, List.reverse_reverse]

end Blank

namespace Numeral

open Address (Digits digits_ten_iff)

/-- Decimal digits, with or without a plus in front of them. -/
inductive Signed : List Char → Nat → Prop where
  | plain {t : List Char} {n : Nat} : Digits 10 t n → Signed t n
  | plus {t : List Char} {n : Nat} : Digits 10 t n → Signed ('+' :: t) n

/-- A number below a bound, between white space. -/
inductive Written (bound : Nat) : List Char → Nat → Prop where
  | between {before text after : List Char} {n : Nat} : (∀ c ∈ before, Blank.isBlank c) →
      Signed text n → (∀ c ∈ after, Blank.isBlank c) → n < bound →
      Written bound (before ++ text ++ after) n

variable {bound n m : Nat} {s t : List Char}

theorem le_ofDigitChars (s : List Char) (n : Nat) : n ≤ Nat.ofDigitChars 10 s n := by
  induction s generalizing n with
  | nil => simp
  | cons c s ih =>
    rw [Nat.ofDigitChars_cons]
    exact Nat.le_trans (by omega) (ih _)

/-- A number only grows while its digits are read, so it is too large as soon as it is at one. -/
theorem readDigits_eq_ok (small : n < bound) :
    readDigits bound n s = .ok m ↔
      (∀ c ∈ s, c.isDigit) ∧ m = Nat.ofDigitChars 10 s n ∧ m < bound := by
  induction s generalizing n with
  | nil =>
    simp only [readDigits, Except.ok.injEq, Nat.ofDigitChars_nil]
    constructor
    · rintro rfl
      exact ⟨by simp, rfl, small⟩
    · rintro ⟨-, rfl, -⟩
      rfl
  | cons c s ih =>
    have next : Nat.ofDigitChars 10 (c :: s) n =
        Nat.ofDigitChars 10 s (n * 10 + (c.toNat - 48)) := by
      rw [Nat.ofDigitChars_cons, Nat.mul_comm]
      rfl
    rw [readDigits, next]
    by_cases digit : c.isDigit
    · by_cases fits : n * 10 + (c.toNat - 48) < bound
      · simp [digit, fits, ih fits]
      · have grown := le_ofDigitChars s (n * 10 + (c.toNat - 48))
        simp only [digit, fits]
        constructor
        · intro failed
          cases failed
        · omega
    · simp [digit]

theorem Signed.ne_nil (signed : Signed t n) : t ≠ [] := by
  cases signed with
  | plain digits => exact digits.given
  | plus => simp

theorem Signed.not_blank (signed : Signed t n) : ∀ c ∈ t, Blank.isBlank c = false := by
  have digit {c : Char} (digit : c.isDigit) : Blank.isBlank c = false := by
    have range : 48 ≤ c.toNat ∧ c.toNat ≤ 57 := Char.isDigit_iff_toNat.mp digit
    simp only [Blank.isBlank, Blank.ranges, List.any_cons, List.any_nil, Bool.or_eq_false_iff,
      Bool.and_eq_false_iff, decide_eq_false_iff_not, and_true]
    omega
  cases signed with
  | plain digits => exact fun c there => digit ((digits_ten_iff.mp digits).2.1 c there)
  | plus digits =>
    intro c there
    obtain rfl | there := List.mem_cons.mp there
    · decide
    · exact digit ((digits_ten_iff.mp digits).2.1 c there)

theorem signed_plus_iff : Signed ('+' :: t) n ↔ Digits 10 t n := by
  constructor
  · intro signed
    cases signed with
    | plain digits => exact absurd (digits.digits '+' List.mem_cons_self) (by decide)
    | plus digits => exact digits
  · exact .plus

theorem signed_iff {c : Char} (noPlus : c ≠ '+') : Signed (c :: t) n ↔ Digits 10 (c :: t) n := by
  constructor
  · intro signed
    cases signed with
    | plain digits => exact digits
    | plus => exact absurd rfl noPlus
  · exact .plain

theorem parse_eq_ok (positive : 0 < bound) :
    parse bound t = .ok n ↔ Signed t n ∧ n < bound := by
  have digits {t : List Char} (given : t ≠ []) :
      readDigits bound 0 t = .ok n ↔ Digits 10 t n ∧ n < bound := by
    rw [readDigits_eq_ok positive, digits_ten_iff]
    simp only [given, ne_eq, not_false_eq_true, true_and, and_assoc]
  cases t with
  | nil =>
    constructor
    · intro failed
      cases failed
    · rintro ⟨signed, -⟩
      exact absurd rfl signed.ne_nil
  | cons c t =>
    by_cases plus : c = '+'
    · subst plus
      rw [signed_plus_iff]
      cases t with
      | nil =>
        constructor
        · intro failed
          cases failed
        · rintro ⟨nothing, -⟩
          exact absurd rfl nothing.given
      | cons d t => simpa [parse] using digits (List.cons_ne_nil d t)
    · rw [signed_iff plus]
      simpa [parse, plus] using digits (List.cons_ne_nil c t)

theorem Written.small (written : Written bound s n) : n < bound := by
  cases written with
  | between _ _ _ small => exact small

theorem parse_trim_eq_ok (positive : 0 < bound) :
    parse bound (Blank.trim s) = .ok n ↔ Written bound s n := by
  rw [parse_eq_ok positive]
  constructor
  · rintro ⟨signed, small⟩
    obtain ⟨before, after, same, front, back⟩ := Blank.eq_trim s
    rw [same]
    exact .between front signed back small
  · rintro ⟨front, signed, back, small⟩
    rw [Blank.trim_between front back signed.ne_nil signed.not_blank]
    exact ⟨signed, small⟩

end Numeral

end Mailroom
