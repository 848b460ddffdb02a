import Mailroom.Address
import Mathlib.Data.List.Basic
import Mathlib.Data.Nat.Digits.Defs
import Mathlib.Tactic.SplitIfs

/-!
# Numbers in an address

A number is read as far as its digits go, so that it has to be known what comes after it. What is
read is in one of the spellings of the format, and every such spelling is read.
-/

namespace Mailroom.Address

/-- Digits of a radix, and the number that they are. -/
structure Digits (radix : Nat) (t : List Char) (n : Nat) : Prop where
  given : t ≠ []
  digits : ∀ c ∈ t, (digitValue? radix c).isSome
  value : n = Nat.ofDigits radix (t.filterMap (digitValue? radix)).reverse

/-- A number in one of the spellings that a format allows. -/
structure Number (f : NumberFormat) (t : List Char) (n : Nat) : Prop extends
    Digits f.radix t n where
  short : ∀ most, f.maxDigits = some most → t.length ≤ most
  /-- A zero in front stands alone. -/
  plain : f.zerosInFront ∨ t.head? ≠ some '0' ∨ t.length = 1
  small : n < f.bound

/-- What comes after a number does not go on with it. -/
def EndsNumber (radix : Nat) (rest : List Char) : Prop :=
  ∀ c s, rest = c :: s → digitValue? radix c = none

variable {radix n : Nat} {t s rest : List Char} {f : NumberFormat}

theorem Digits.unique {m : Nat} (digits : Digits radix t n) (digits' : Digits radix t m) : n = m :=
  digits.value.trans digits'.value.symm

theorem ofDigits_reverse (radix : Nat) (ds : List Nat) :
    Nat.ofDigits radix ds.reverse = ds.foldl (fun n d => n * radix + d) 0 := by
  rw [Nat.ofDigits_eq_foldr, List.foldr_reverse]
  simp [Nat.add_comm, Nat.mul_comm]

/-- Digits are read one by one, and each makes the number before it larger. -/
theorem foldl_digitValue? (digits : ∀ c ∈ t, (digitValue? radix c).isSome) (n : Nat) :
    t.foldl (fun n c => n * radix + (digitValue? radix c).getD 0) n =
      (t.filterMap (digitValue? radix)).foldl (fun n d => n * radix + d) n := by
  induction t generalizing n with
  | nil => rfl
  | cons c t ih =>
    obtain ⟨d, known⟩ := Option.isSome_iff_exists.mp (digits c List.mem_cons_self)
    rw [List.foldl_cons, List.filterMap_cons_some known, List.foldl_cons, known]
    exact ih (fun c later => digits c (List.mem_cons_of_mem _ later)) _

/-- The digits that a text begins with. -/
def leadingDigits (radix : Nat) (s : List Char) : List Char :=
  s.takeWhile fun c => (digitValue? radix c).isSome

theorem leadingDigits_append (digits : ∀ c ∈ t, (digitValue? radix c).isSome)
    (ends : EndsNumber radix rest) : leadingDigits radix (t ++ rest) = t := by
  rw [leadingDigits, List.takeWhile_append_of_pos digits]
  cases rest with
  | nil => simp
  | cons c s => simp [ends c s rfl]

theorem endsNumber_nil (radix : Nat) : EndsNumber radix [] := by
  intro c s same
  cases same

theorem endsNumber_cons {c : Char} (notDigit : digitValue? radix c = none) (s : List Char) :
    EndsNumber radix (c :: s) := by
  intro d r same
  cases same
  exact notDigit

/-- Where the digits at the end of a text begin. -/
theorem cut_before_digits {t' s s' : List Char} {c : Char} (notDigit : digitValue? radix c = none)
    (digits : ∀ d ∈ s, (digitValue? radix d).isSome)
    (digits' : ∀ d ∈ s', (digitValue? radix d).isSome) (same : t ++ c :: s = t' ++ c :: s') :
    t = t' ∧ s = s' := by
  have last {t s : List Char} (digits : ∀ d ∈ s, (digitValue? radix d).isSome) :
      leadingDigits radix (t ++ c :: s).reverse = s.reverse := by
    have backwards : ∀ d ∈ s.reverse, (digitValue? radix d).isSome := by simpa using digits
    simp [leadingDigits_append backwards (endsNumber_cons notDigit t.reverse)]
  have ends := last digits (t := t)
  rw [same, last digits', List.reverse_inj] at ends
  subst ends
  exact ⟨List.append_cancel_right same, rfl⟩

/-- What is left of a text without its leading digits is not a digit. -/
theorem eq_leadingDigits_append (radix : Nat) (s : List Char) :
    ∃ rest, s = leadingDigits radix s ++ rest ∧ EndsNumber radix rest := by
  refine ⟨s.dropWhile fun c => (digitValue? radix c).isSome,
    List.takeWhile_append_dropWhile.symm, ?_⟩
  intro c r same
  have stops := List.head?_dropWhile_not (fun c => (digitValue? radix c).isSome) s
  rw [same] at stops
  simpa using stops

/-- The digits are taken if they are a number. -/
theorem readNumber_iff :
    readNumber f s = some (n, rest) ↔
      Number f (leadingDigits f.radix s) n ∧ rest = s.drop (leadingDigits f.radix s).length := by
  have digits : ∀ c ∈ leadingDigits f.radix s, (digitValue? f.radix c).isSome :=
    List.all_eq_true.mp List.all_takeWhile
  have value := foldl_digitValue? digits 0
  rw [← ofDigits_reverse] at value
  rw [readNumber, ← leadingDigits, value, Option.ite_none_left_eq_some]
  generalize leadingDigits f.radix s = t at digits value
  simp only [Bool.or_eq_true, Bool.and_eq_true, not_or, decide_eq_true_eq, List.isEmpty_iff,
    Bool.not_eq_true', not_and, Nat.not_le, Option.some_inj, Prod.mk.injEq]
  constructor
  · rintro ⟨⟨⟨⟨given, short⟩, plain⟩, small⟩, rfl, rfl⟩
    refine ⟨⟨⟨given, digits, rfl⟩, ?_, ?_, small⟩, rfl⟩
    · intro most limited
      rw [limited] at short
      simpa using short
    · have some := List.length_pos_iff.mpr given
      by_cases zeros : f.zerosInFront
      · exact .inl zeros
      · by_cases long : 1 < t.length
        · exact .inr (.inl (plain ⟨by simpa using zeros, long⟩))
        · exact .inr (.inr (by omega))
  · rintro ⟨number, rfl⟩
    refine ⟨⟨⟨⟨number.given, ?_⟩, ?_⟩, number.value ▸ number.small⟩, number.value.symm, rfl⟩
    · cases limited : f.maxDigits with
      | none => simp
      | some most => simpa using number.short most limited
    · rintro ⟨noZeros, long⟩ zero
      obtain zeros | other | single := number.plain
      · simp [noZeros] at zeros
      · exact other zero
      · omega

theorem readNumber_eq_some :
    readNumber f s = some (n, rest) ↔
      ∃ t, s = t ++ rest ∧ Number f t n ∧ EndsNumber f.radix rest := by
  rw [readNumber_iff]
  constructor
  · rintro ⟨number, rfl⟩
    obtain ⟨rest, same, ends⟩ := eq_leadingDigits_append f.radix s
    have left : s.drop (leadingDigits f.radix s).length = rest := by
      have cut := congrArg (List.drop (leadingDigits f.radix s).length) same
      rwa [List.drop_left] at cut
    rw [left]
    exact ⟨_, same, number, ends⟩
  · rintro ⟨t, rfl, number, ends⟩
    rw [leadingDigits_append number.digits ends, List.drop_left]
    exact ⟨number, rfl⟩

/-! ## Decimal numbers -/

theorem digitValue?_ten (c : Char) :
    digitValue? 10 c = if c.isDigit then some (c.toNat - 48) else none := by
  have le (a b : Char) : a ≤ b ↔ a.toNat ≤ b.toNat := Char.le_def
  have range : c.isDigit ↔ 48 ≤ c.toNat ∧ c.toNat ≤ 57 := Char.isDigit_iff_toNat
  have zero : '0'.toNat = 48 := rfl
  have nine : '9'.toNat = 57 := rfl
  have small : 'a'.toNat = 97 := rfl
  have large : 'A'.toNat = 65 := rfl
  simp only [digitValue?, Bool.and_eq_true, decide_eq_true_eq, le, range]
  split_ifs <;> first | rfl | omega

/-- Decimal digits, by the value the standard library gives them. -/
theorem digits_ten_iff :
    Digits 10 t n ↔ t ≠ [] ∧ (∀ c ∈ t, c.isDigit) ∧ n = Nat.ofDigitChars 10 t 0 := by
  have isDigit (c : Char) : (digitValue? 10 c).isSome ↔ c.isDigit := by
    simp [digitValue?_ten]
  have value (digits : ∀ c ∈ t, c.isDigit) :
      Nat.ofDigits 10 (t.filterMap (digitValue? 10)).reverse = Nat.ofDigitChars 10 t 0 := by
    rw [ofDigits_reverse, ← foldl_digitValue? (fun c there => (isDigit c).mpr (digits c there))]
    refine List.foldl_ext _ _ _ fun n c there => ?_
    rw [digitValue?_ten, if_pos (digits c there), Nat.mul_comm n]
    rfl
  constructor
  · intro ⟨given, digits, same⟩
    simp only [isDigit] at digits
    exact ⟨given, digits, same.trans (value digits)⟩
  · intro ⟨given, digits, same⟩
    refine ⟨given, ?_, same.trans (value digits).symm⟩
    simpa only [isDigit] using digits

theorem digits_toString (n : Nat) : Digits 10 (toString n).toList n := by
  have shown : (toString n).toList = Nat.toDigits 10 n := by simp [toString, Nat.repr]
  rw [shown, digits_ten_iff]
  refine ⟨Nat.toDigits_ne_nil, ?_, Nat.ofDigitChars_ten_toDigits.symm⟩
  intro c there
  exact Nat.isDigit_of_mem_toDigits (by omega) (by omega) there

end Mailroom.Address
