import Mailroom.Proofs.Address.Numbers
import Mathlib.Tactic.SplitIfs

/-!
# Hosts

The texts of hosts as a grammar, and that the reading of addresses follows it: a text is read
exactly when it is a host, a colon and a port. Groups and numbers are taken as far as they go, so
that each lemma about reading says what comes after the text.
-/

namespace Mailroom.Address

/-- Four numbers between dots. -/
inductive V4 : List Char → Nat → Nat → Nat → Nat → Prop where
  | dotted {ta tb tc td : List Char} {a b c d : Nat} : Number octet ta a → Number octet tb b →
      Number octet tc c → Number octet td d →
      V4 (ta ++ '.' :: (tb ++ '.' :: (tc ++ '.' :: td))) a b c d

/-- Groups between colons, at least one. The last two can be written as a version 4 address; the
flag tells whether they are. -/
inductive Groups : List Char → List Nat → Bool → Prop where
  | single {t : List Char} {g : Nat} : Number group t g → Groups t [g] false
  | v4 {t : List Char} {a b c d : Nat} : V4 t a b c d → Groups t [256 * a + b, 256 * c + d] true
  | more {t r : List Char} {g : Nat} {gs : List Nat} {endsInV4 : Bool} : Number group t g →
      Groups r gs endsInV4 → Groups (t ++ ':' :: r) (g :: gs) endsInV4

/-- Groups, or nothing. -/
inductive SomeGroups : List Char → List Nat → Bool → Prop where
  | none : SomeGroups [] [] false
  | some {t : List Char} {gs : List Nat} {endsInV4 : Bool} : Groups t gs endsInV4 →
      SomeGroups t gs endsInV4

/-- Eight groups. Two colons stand for groups of zeros that are left out, one or more. -/
inductive V6 : List Char → List Nat → Prop where
  | full {t : List Char} {gs : List Nat} {endsInV4 : Bool} : Groups t gs endsInV4 →
      gs.length = 8 → V6 t gs
  | short {h t : List Char} {head tail : List Nat} {endsInV4 : Bool} : SomeGroups h head false →
      SomeGroups t tail endsInV4 → head.length + tail.length < 8 →
      V6 (h ++ ':' :: ':' :: t)
        (head ++ List.replicate (8 - head.length - tail.length) 0 ++ tail)

/-- A scope after a percent sign. Without one it is zero. -/
inductive Scope : List Char → Nat → Prop where
  | none : Scope [] 0
  | some {t : List Char} {n : Nat} : Number scopeNumber t n → Scope ('%' :: t) n

variable {s rest t : List Char} {n : Nat} {f : NumberFormat} {c : Char}

theorem readChar_eq_some : readChar c s = some ((), rest) ↔ s = c :: rest := by
  cases s with
  | nil => simp [readChar]
  | cons d s =>
    by_cases same : d = c
    · simp [readChar, same]
    · simp [readChar, same]

theorem dot_not_digit : digitValue? octet.radix '.' = none := by decide

theorem readV4_eq_some {a b c d : Nat} :
    readV4 s = some ((a, b, c, d), rest) ↔
      ∃ t, s = t ++ rest ∧ V4 t a b c d ∧ EndsNumber 10 rest := by
  constructor
  · intro read
    obtain ⟨⟨a', s₁⟩, first, read⟩ := Option.bind_eq_some_iff.mp read
    obtain ⟨⟨⟨⟩, s₂⟩, dot, read⟩ := Option.bind_eq_some_iff.mp read
    obtain ⟨⟨b', s₃⟩, second, read⟩ := Option.bind_eq_some_iff.mp read
    obtain ⟨⟨⟨⟩, s₄⟩, dot', read⟩ := Option.bind_eq_some_iff.mp read
    obtain ⟨⟨c', s₅⟩, third, read⟩ := Option.bind_eq_some_iff.mp read
    obtain ⟨⟨⟨⟩, s₆⟩, dot'', read⟩ := Option.bind_eq_some_iff.mp read
    obtain ⟨⟨d', s₇⟩, fourth, read⟩ := Option.bind_eq_some_iff.mp read
    cases read
    rw [readChar_eq_some] at dot dot' dot''
    obtain ⟨ta, rfl, isA, -⟩ := readNumber_eq_some.mp first
    obtain ⟨tb, rfl, isB, -⟩ := readNumber_eq_some.mp second
    obtain ⟨tc, rfl, isC, -⟩ := readNumber_eq_some.mp third
    obtain ⟨td, rfl, isD, ends⟩ := readNumber_eq_some.mp fourth
    subst dot dot' dot''
    exact ⟨_, by simp, .dotted isA isB isC isD, ends⟩
  · rintro ⟨_, rfl, @⟨ta, tb, tc, td, _, _, _, _, first, second, third, fourth⟩, ends⟩
    have dot : ∀ s, EndsNumber octet.radix ('.' :: s) := endsNumber_cons dot_not_digit
    have readA := fun s => readNumber_eq_some.mpr ⟨ta, rfl, first, dot s⟩
    have readB := fun s => readNumber_eq_some.mpr ⟨tb, rfl, second, dot s⟩
    have readC := fun s => readNumber_eq_some.mpr ⟨tc, rfl, third, dot s⟩
    have readD := readNumber_eq_some.mpr ⟨td, rfl, fourth, ends⟩
    simp [readV4, readA, readB, readC, readD, readChar]

/-- Every decimal digit is a hexadecimal one. -/
theorem isSome_digitValue?_of_decimal (digit : (digitValue? 10 c).isSome) :
    (digitValue? 16 c).isSome := by
  simp only [digitValue?, Option.isSome_ite] at digit ⊢
  split_ifs at digit ⊢ <;> omega

theorem EndsNumber.decimal (ends : EndsNumber 16 rest) : EndsNumber 10 rest := by
  intro c s same
  have none := ends c s same
  rw [← Option.not_isSome_iff_eq_none] at none ⊢
  exact mt isSome_digitValue?_of_decimal none

/-- There is no number where no digit is. -/
theorem readNumber_eq_none (ends : EndsNumber f.radix rest) : readNumber f rest = none := by
  rw [Option.eq_none_iff_forall_ne_some]
  rintro ⟨n, r⟩ read
  obtain ⟨t, rfl, number, -⟩ := readNumber_eq_some.mp read
  obtain ⟨c, t, rfl⟩ := List.exists_cons_of_ne_nil number.given
  have digit := number.digits c List.mem_cons_self
  rw [ends c (t ++ r) rfl] at digit
  cases digit

theorem readV4_eq_none (ends : EndsNumber 16 rest) : readV4 rest = none := by
  have nothing : readNumber octet rest = none := readNumber_eq_none ends.decimal
  rw [readV4, nothing]
  rfl

/-- A group is no version 4 address when no dot follows. -/
theorem readV4_group_eq_none (group : Number group t n) (ends : EndsNumber 16 rest)
    (noDot : ∀ s, rest ≠ '.' :: s) : readV4 (t ++ rest) = none := by
  rw [Option.eq_none_iff_forall_ne_some]
  rintro ⟨⟨a, b, c, d⟩, r⟩ read
  obtain ⟨_, same, @⟨ta, _, _, _, _, _, _, _, first, _, _, _⟩, -⟩ := readV4_eq_some.mp read
  rw [List.append_assoc, List.cons_append] at same
  -- Both begin with their digits, and what comes after those cannot be two things.
  have digits : ∀ c ∈ t, (digitValue? 16 c).isSome := group.digits
  have digits' : ∀ c ∈ ta, (digitValue? 16 c).isSome := fun c there =>
    isSome_digitValue?_of_decimal (first.digits c there)
  have dot : ∀ s, EndsNumber 16 ('.' :: s) := endsNumber_cons (by decide)
  have leading := congrArg (leadingDigits 16) same
  rw [leadingDigits_append digits ends, leadingDigits_append digits' (dot _)] at leading
  subst leading
  exact noDot _ (List.append_cancel_left same)

/-- A group that is not the first comes after a colon. -/
def lead (first : Bool) (t : List Char) : List Char :=
  if first then t else ':' :: t

theorem readItem_eq_some {α : Type} {item : Reader α} {a : α} {first : Bool} :
    readItem first item s = some (a, rest) ↔ ∃ r, s = lead first r ∧ item r = some (a, rest) := by
  cases first with
  | true => simp [readItem, lead]
  | false =>
    constructor
    · intro read
      obtain ⟨⟨⟨⟩, r⟩, colon, read⟩ := Option.bind_eq_some_iff.mp read
      exact ⟨r, readChar_eq_some.mp colon, read⟩
    · rintro ⟨r, rfl, read⟩
      simp [readItem, lead, readChar, read]

/-- What comes after groups does not go on with them. -/
structure EndsGroups (rest : List Char) : Prop where
  noDigit : EndsNumber 16 rest
  noDot : ∀ s, rest ≠ '.' :: s
  noGroup : ∀ s, rest = ':' :: s → EndsNumber 16 s

theorem EndsGroups.readItem_eq_none {α : Type} {item : Reader α} (ends : EndsGroups rest)
    (nothing : ∀ s, EndsNumber 16 s → item s = none) (first : Bool) :
    readItem first item rest = none := by
  rw [Option.eq_none_iff_forall_ne_some]
  rintro ⟨a, r⟩ read
  obtain ⟨s, same, read⟩ := readItem_eq_some.mp read
  have here : EndsNumber 16 s := by
    cases first with
    | true => cases same; exact ends.noDigit
    | false => exact ends.noGroup s same
  rw [nothing s here] at read
  cases read

theorem EndsGroups.readGroups_eq (ends : EndsGroups rest) (room : Nat) (first : Bool) :
    readGroups room first rest = ([], false, rest) := by
  cases room with
  | zero => rfl
  | succ room =>
    have noGroup : ∀ s, EndsNumber 16 s → readNumber group s = none :=
      fun s => readNumber_eq_none (f := group)
    have noV4 : ∀ s, EndsNumber 16 s → readV4 s = none := fun s => readV4_eq_none
    simp [readGroups, ends.readItem_eq_none noGroup, ends.readItem_eq_none noV4]

theorem lead_append (first : Bool) (t rest : List Char) :
    lead first t ++ rest = lead first (t ++ rest) := by
  cases first <;> rfl

/-- A group is read as such when it is not the beginning of a version 4 address. -/
theorem readGroups_number {g : Nat} (number : Number group t g) (ends : EndsNumber 16 rest)
    (noDot : ∀ s, rest ≠ '.' :: s) (room : Nat) (first : Bool) :
    readGroups (room + 1) first (lead first t ++ rest) =
      (g :: (readGroups room false rest).1, (readGroups room false rest).2) := by
  have noV4 : readItem first readV4 (lead first t ++ rest) = none := by
    rw [Option.eq_none_iff_forall_ne_some]
    rintro ⟨v4, r⟩ read
    rw [lead_append] at read
    obtain ⟨s, same, read⟩ := readItem_eq_some.mp read
    have here : t ++ rest = s := by cases first <;> simpa [lead] using same
    rw [← here, readV4_group_eq_none number ends noDot] at read
    cases read
  have read : readItem first (readNumber group) (lead first t ++ rest) = some (g, rest) :=
    readItem_eq_some.mpr ⟨_, lead_append .., readNumber_eq_some.mpr ⟨t, rfl, number, ends⟩⟩
  simp [readGroups, noV4, read]

/-- As many groups are read as there are. -/
theorem readGroups_complete {gs : List Nat} {endsInV4 : Bool} (groups : Groups t gs endsInV4)
    (ends : EndsGroups rest) {room : Nat} (enough : gs.length ≤ room) (first : Bool) :
    readGroups room first (lead first t ++ rest) = (gs, endsInV4, rest) := by
  induction groups generalizing room first with
  | single number =>
    obtain ⟨room, rfl⟩ := Nat.exists_eq_add_of_le' enough
    rw [List.length_singleton, readGroups_number number ends.noDigit ends.noDot,
      ends.readGroups_eq]
  | v4 v4 =>
    obtain ⟨room, rfl⟩ := Nat.exists_eq_add_of_le' enough
    have read := readItem_eq_some.mpr
      ⟨_, lead_append first _ rest, readV4_eq_some.mpr ⟨_, rfl, v4, ends.noDigit.decimal⟩⟩
    simp [readGroups, read]
  | @more t r g gs endsInV4 number groups ih =>
    obtain ⟨room, rfl⟩ := Nat.exists_eq_add_of_le' (Nat.le_of_add_left_le enough)
    have others : readGroups room false (':' :: (r ++ rest)) = (gs, endsInV4, rest) :=
      ih (Nat.le_of_succ_le_succ enough) false
    have colon : EndsNumber 16 (':' :: (r ++ rest)) := endsNumber_cons (by decide) _
    rw [lead_append, List.append_assoc, List.cons_append, ← lead_append,
      readGroups_number number colon (by simp), others]

/-- What is read as groups is groups. -/
theorem readGroups_sound {gs : List Nat} {endsInV4 : Bool} {room : Nat} {first : Bool}
    (read : readGroups room first s = (gs, endsInV4, rest)) :
    (gs = [] ∧ endsInV4 = false ∧ s = rest) ∨
      gs.length ≤ room ∧ ∃ t, s = lead first t ++ rest ∧ Groups t gs endsInV4 := by
  induction room generalizing first s gs with
  | zero =>
    cases read
    exact .inl ⟨rfl, rfl, rfl⟩
  | succ room ih =>
    rw [readGroups] at read
    split at read
    · rename_i a b c d s' attempt
      cases read
      obtain ⟨some, item⟩ := Option.ite_none_right_eq_some.mp attempt
      obtain ⟨r, rfl, v4⟩ := readItem_eq_some.mp item
      obtain ⟨t, rfl, v4, -⟩ := readV4_eq_some.mp v4
      exact .inr ⟨Nat.succ_le_succ some, t, (lead_append ..).symm, .v4 v4⟩
    · split at read
      · rename_i g s' item
        obtain ⟨r, rfl, number⟩ := readItem_eq_some.mp item
        obtain ⟨t, rfl, isNumber, -⟩ := readNumber_eq_some.mp number
        generalize others : readGroups room false s' = result at read
        obtain ⟨gs', endsInV4', s''⟩ := result
        cases read
        obtain ⟨rfl, rfl, rfl⟩ | ⟨short, r, rfl, groups⟩ := ih others
        · exact .inr ⟨by simp, t, (lead_append ..).symm, .single isNumber⟩
        · refine .inr ⟨by simpa using short, t ++ ':' :: r, ?_, .more isNumber groups⟩
          rw [lead_append first (t ++ ':' :: r), List.append_assoc]
          rfl
      · cases read
        exact .inl ⟨rfl, rfl, rfl⟩

/-- There can be no groups beside two colons. -/
theorem readSomeGroups_complete {gs : List Nat} {endsInV4 : Bool} (groups : SomeGroups t gs endsInV4)
    (ends : EndsGroups rest) {room : Nat} (enough : gs.length ≤ room) :
    readGroups room true (t ++ rest) = (gs, endsInV4, rest) := by
  cases groups with
  | none => exact ends.readGroups_eq room true
  | some groups => exact readGroups_complete groups ends enough true

theorem readSomeGroups_sound {gs : List Nat} {endsInV4 : Bool} {room : Nat}
    (read : readGroups room true s = (gs, endsInV4, rest)) :
    gs.length ≤ room ∧ ∃ t, s = t ++ rest ∧ SomeGroups t gs endsInV4 := by
  obtain ⟨rfl, rfl, rfl⟩ | ⟨short, t, rfl, groups⟩ := readGroups_sound read
  · exact ⟨by simp, [], rfl, .none⟩
  · exact ⟨short, t, rfl, .some groups⟩

theorem endsGroups_colons (s : List Char) : EndsGroups (':' :: ':' :: s) where
  noDigit := endsNumber_cons (by decide) _
  noDot := by simp
  noGroup r same := by
    cases same
    exact endsNumber_cons (by decide) _

theorem readV6_complete {gs : List Nat} (v6 : V6 t gs) (ends : EndsGroups rest) :
    readV6 (t ++ rest) = some (gs, rest) := by
  cases v6 with
  | full groups eight =>
    have read := readGroups_complete groups ends (Nat.le_of_eq eight) true
    rw [lead, if_pos rfl] at read
    simp [readV6, read, eight]
  | @short h t head tail endsInV4 before after few =>
    have readHead := readSomeGroups_complete before (endsGroups_colons (t ++ rest))
      (show head.length ≤ 8 by omega)
    have readTail := readSomeGroups_complete after ends
      (show tail.length ≤ 7 - head.length by omega)
    have notEight : head.length ≠ 8 := by omega
    simp [readV6, readHead, notEight, readTail, readChar]

theorem readV6_sound {gs : List Nat} (read : readV6 s = some (gs, rest)) :
    ∃ t, s = t ++ rest ∧ V6 t gs := by
  rw [readV6] at read
  generalize readHead : readGroups 8 true s = head at read
  obtain ⟨head, endsInV4, s'⟩ := head
  obtain ⟨atMost, h, rfl, groups⟩ := readSomeGroups_sound readHead
  dsimp only at read
  split at read
  · rename_i eight
    cases read
    cases groups with
    | none => cases eight
    | some groups => exact ⟨h, rfl, .full groups eight⟩
  · split at read
    · cases read
    · rename_i notEight noV4
      obtain ⟨⟨⟨⟩, s₁⟩, colon, read⟩ := Option.bind_eq_some_iff.mp read
      obtain ⟨⟨⟨⟩, s₂⟩, colon', read⟩ := Option.bind_eq_some_iff.mp read
      rw [readChar_eq_some] at colon colon'
      have colons : s' = ':' :: ':' :: s₂ := colon.trans (congrArg _ colon')
      generalize readTail : readGroups (7 - head.length) true s₂ = tail at read
      obtain ⟨tail, endsInV4', s₃⟩ := tail
      obtain ⟨atMost', t, rfl, groups'⟩ := readSomeGroups_sound readTail
      simp only [pure, Option.some_inj, Prod.mk.injEq] at read
      obtain ⟨rfl, rfl⟩ := read
      rw [Bool.not_eq_true] at noV4
      rw [noV4] at groups
      exact ⟨_, by simp [colons], .short groups groups' (by omega)⟩

theorem readScope_complete {n : Nat} (scope : Scope t n) (s : List Char) :
    readScope (t ++ ']' :: s) = (n, ']' :: s) := by
  cases scope with
  | none => simp [readScope, readChar]
  | some number =>
    have ends : EndsNumber scopeNumber.radix (']' :: s) := endsNumber_cons (by decide) s
    simp [readScope, readChar, readNumber_eq_some.mpr ⟨_, rfl, number, ends⟩]

theorem readScope_sound (read : readScope s = (n, rest)) : ∃ t, s = t ++ rest ∧ Scope t n := by
  obtain read | ⟨-, same⟩ := Option.getD_eq_iff.mp read
  · obtain ⟨⟨⟨⟩, r⟩, percent, read⟩ := Option.bind_eq_some_iff.mp read
    obtain ⟨t, rfl, number, -⟩ := readNumber_eq_some.mp read
    exact ⟨'%' :: t, readChar_eq_some.mp percent, .some number⟩
  · cases same
    exact ⟨[], rfl, .none⟩

theorem readPort_eq_some :
    readPort s = some (n, rest) ↔
      ∃ t, s = ':' :: (t ++ rest) ∧ Number portNumber t n ∧ EndsNumber 10 rest := by
  constructor
  · intro read
    obtain ⟨⟨⟨⟩, r⟩, colon, read⟩ := Option.bind_eq_some_iff.mp read
    obtain ⟨t, rfl, number, ends⟩ := readNumber_eq_some.mp read
    exact ⟨t, readChar_eq_some.mp colon, number, ends⟩
  · rintro ⟨t, rfl, number, ends⟩
    simp [readPort, readChar, readNumber_eq_some.mpr ⟨_, rfl, number, ends⟩]

theorem readPort_complete (number : Number portNumber t n) : readPort (':' :: t) = some (n, []) :=
  readPort_eq_some.mpr ⟨t, by simp, number, endsNumber_nil 10⟩

/-- An address without its port. -/
inductive Host where
  | v4 (a b c d : Nat)
  | v6 (groups : List Nat) (scope : Nat)
  deriving DecidableEq

def Host.withPort (host : Host) (port : Nat) : Address :=
  match host with
  | .v4 a b c d => .v4 a b c d port
  | .v6 groups scope => .v6 groups scope port

/-- What an address is of, without the port. -/
def host : Address → Host
  | .v4 a b c d _ => .v4 a b c d
  | .v6 groups scope _ => .v6 groups scope

@[simp] theorem host_withPort (h : Host) (port : Nat) : (h.withPort port).host = h := by
  cases h <;> rfl

@[simp] theorem port_withPort (h : Host) (port : Nat) : (h.withPort port).port = port := by
  cases h <;> rfl

@[simp] theorem withPort_host (a : Address) : a.host.withPort a.port = a := by
  cases a <;> rfl

/-- A version 4 address as it is, or a version 6 address in brackets, with or without a scope. -/
inductive HostText : List Char → Host → Prop where
  | v4 {t : List Char} {a b c d : Nat} : V4 t a b c d → HostText t (.v4 a b c d)
  | v6 {t scopeText : List Char} {groups : List Nat} {scope : Nat} : V6 t groups →
      Scope scopeText scope → HostText ('[' :: (t ++ scopeText ++ [']'])) (.v6 groups scope)

theorem Scope.endsGroups {n : Nat} (scope : Scope t n) (s : List Char) :
    EndsGroups (t ++ ']' :: s) := by
  cases scope with
  | none => exact ⟨endsNumber_cons (by decide) s, by simp, by simp⟩
  | some number => exact ⟨endsNumber_cons (by decide) _, by simp, by simp⟩

theorem readSocketV4_eq_some {a : Address} :
    readSocketV4 s = some (a, []) ↔ ∃ t p a' b c d port, s = t ++ ':' :: p ∧ V4 t a' b c d ∧
      Number portNumber p port ∧ a = .v4 a' b c d port := by
  constructor
  · intro read
    obtain ⟨⟨⟨a, b, c, d⟩, r⟩, readHost, read⟩ := Option.bind_eq_some_iff.mp read
    obtain ⟨⟨port, r'⟩, readPort, read⟩ := Option.bind_eq_some_iff.mp read
    cases read
    obtain ⟨t, rfl, host, -⟩ := readV4_eq_some.mp readHost
    obtain ⟨p, rfl, number, -⟩ := readPort_eq_some.mp readPort
    exact ⟨t, p, a, b, c, d, port, by simp, host, number, rfl⟩
  · rintro ⟨t, p, a, b, c, d, port, rfl, host, number, rfl⟩
    have colon : EndsNumber 10 (':' :: p) := endsNumber_cons (by decide) p
    have readHost := readV4_eq_some.mpr ⟨t, rfl, host, colon⟩
    have readPort := readPort_complete number
    simp [readSocketV4, readHost, readPort]

theorem readSocketV6_eq_some {a : Address} :
    readSocketV6 s = some (a, []) ↔ ∃ t u p groups scope port,
      s = '[' :: (t ++ u ++ [']']) ++ ':' :: p ∧ V6 t groups ∧ Scope u scope ∧
        Number portNumber p port ∧ a = .v6 groups scope port := by
  constructor
  · intro read
    obtain ⟨⟨⟨⟩, r⟩, opening, read⟩ := Option.bind_eq_some_iff.mp read
    obtain ⟨⟨groups, r'⟩, readHost, read⟩ := Option.bind_eq_some_iff.mp read
    dsimp only at readHost read
    generalize readScope' : readScope r' = result at read
    obtain ⟨scope, r''⟩ := result
    obtain ⟨⟨⟨⟩, r'''⟩, closing, read⟩ := Option.bind_eq_some_iff.mp read
    obtain ⟨⟨port, last⟩, readPort, read⟩ := Option.bind_eq_some_iff.mp read
    cases read
    obtain ⟨t, rfl, host⟩ := readV6_sound readHost
    obtain ⟨u, rfl, inScope⟩ := readScope_sound readScope'
    obtain ⟨p, rfl, number, -⟩ := readPort_eq_some.mp readPort
    rw [readChar_eq_some] at opening closing
    have after : r'' = ']' :: ':' :: p := by simpa using closing
    exact ⟨t, u, p, groups, scope, port, by simp [opening, after], host, inScope, number, rfl⟩
  · rintro ⟨t, u, p, groups, scope, port, rfl, host, inScope, number, rfl⟩
    have readHost := readV6_complete host (inScope.endsGroups (':' :: p))
    have readScope := readScope_complete inScope (':' :: p)
    have readPort := readPort_complete number
    simp [readSocketV6, readChar, readHost, readScope, readPort]

/-- What is read is a host, a colon and a port. -/
theorem parse?_eq_some {text : String} {a : Address} :
    parse? text = some a ↔
      ∃ t p host port, text.toList = t ++ ':' :: p ∧ HostText t host ∧ Number portNumber p port ∧
        a = host.withPort port := by
  have whole : parse? text = some a ↔
      readSocketV4 text.toList = some (a, []) ∨
        readSocketV4 text.toList = none ∧ readSocketV6 text.toList = some (a, []) := by
    rw [← Option.or_eq_some_iff, parse?]
    rcases (readSocketV4 text.toList).or (readSocketV6 text.toList) with _ | ⟨_, _ | _⟩ <;> simp
  rw [whole, readSocketV4_eq_some, readSocketV6_eq_some]
  constructor
  · rintro (⟨t, p, a, b, c, d, port, same, v4, number, rfl⟩ |
      ⟨-, t, u, p, groups, scope, port, same, v6, inScope, number, rfl⟩)
    · exact ⟨t, p, .v4 a b c d, port, same, .v4 v4, number, rfl⟩
    · exact ⟨_, p, .v6 groups scope, port, same, .v6 v6 inScope, number, rfl⟩
  · rintro ⟨_, p, _, port, same, v4 | ⟨v6, inScope⟩, number, rfl⟩
    · exact .inl ⟨_, p, _, _, _, _, port, same, v4, number, rfl⟩
    · have noV4 : readSocketV4 text.toList = none := by
        have bracket : readV4 text.toList = none := by
          rw [same]
          exact readV4_eq_none (endsNumber_cons (by decide) _)
        rw [readSocketV4, bracket]
        rfl
      exact .inr ⟨noV4, _, _, p, _, _, port, same, v6, inScope, number, rfl⟩

/-- A host ends at the colon after it, whatever comes then. -/
theorem HostText.cut {t t' : List Char} {h h' : Host} (host : HostText t h)
    (host' : HostText t' h') (s s' : List Char) (same : t ++ ':' :: s = t' ++ ':' :: s') :
    t = t' ∧ h = h' := by
  have notV4 (r : List Char) : readV4 ('[' :: r) = none :=
    readV4_eq_none (endsNumber_cons (by decide) r)
  have colon (r : List Char) : EndsNumber 10 (':' :: r) := endsNumber_cons (by decide) r
  -- The two texts are one, so they are read alike, and what is left after the hosts is the same.
  suffices rests : h = h' ∧ s = s' by
    obtain ⟨hosts, rfl⟩ := rests
    exact ⟨List.append_cancel_right same, hosts⟩
  cases host with
  | v4 v4 =>
    have read := readV4_eq_some.mpr ⟨_, rfl, v4, colon s⟩
    rw [same] at read
    cases host' with
    | v4 v4' =>
      rw [readV4_eq_some.mpr ⟨_, rfl, v4', colon s'⟩] at read
      cases read
      exact ⟨rfl, rfl⟩
    | v6 =>
      rw [List.cons_append, notV4] at read
      cases read
  | @v6 g u groups scope v6 inScope =>
    cases host' with
    | v4 v4' =>
      have read := readV4_eq_some.mpr ⟨_, rfl, v4', colon s'⟩
      rw [← same, List.cons_append, notV4] at read
      cases read
    | @v6 g' u' groups' scope' v6' inScope' =>
      have inner : g ++ (u ++ ']' :: ':' :: s) = g' ++ (u' ++ ']' :: ':' :: s') := by
        simpa using same
      have read := readV6_complete v6 (inScope.endsGroups (':' :: s))
      rw [inner, readV6_complete v6' (inScope'.endsGroups _), Option.some_inj,
        Prod.mk.injEq] at read
      obtain ⟨rfl, inner⟩ := read
      have read := readScope_complete inScope (':' :: s)
      rw [← inner, readScope_complete inScope', Prod.mk.injEq] at read
      obtain ⟨rfl, rests⟩ := read
      have ends : s' = s := (List.cons.inj (List.cons.inj rests).2).2
      exact ⟨rfl, ends.symm⟩

theorem HostText.unique {h h' : Host} (host : HostText t h) (host' : HostText t h') : h = h' :=
  (host.cut host' [] [] rfl).2

/-- A host does not have a port. -/
theorem HostText.no_port {h h' : Host} (host : HostText t h) (more : List Char) :
    ¬ HostText (t ++ ':' :: more) h' := by
  intro longer
  have same := (host.cut longer (more ++ [':']) [] (by simp)).1
  simp at same

/-- The port that is pasted to a host is the port of the address. -/
theorem parse?_paste {host : String} {port : Nat} {a : Address} (small : port < UInt16.size) :
    parse? (host ++ ":" ++ toString port) = some a ↔
      ∃ h, HostText host.toList h ∧ a = h.withPort port := by
  have digits := digits_toString port
  have number : Number portNumber (toString port).toList port :=
    ⟨digits, by simp [portNumber], .inl rfl, small⟩
  have shown : (host ++ ":" ++ toString port).toList =
    host.toList ++ ':' :: (toString port).toList := by simp
  rw [parse?_eq_some, shown]
  constructor
  · rintro ⟨t, p, h, port', same, isHost, number', rfl⟩
    obtain ⟨rfl, rfl⟩ := cut_before_digits (by decide) digits.digits number'.digits same
    have ports : port = port' := digits.unique number'.toDigits
    exact ⟨h, isHost, by rw [ports]⟩
  · rintro ⟨h, isHost, rfl⟩
    exact ⟨_, _, h, port, rfl, isHost, number, rfl⟩

end Mailroom.Address
