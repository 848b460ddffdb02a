import Mailroom.Proofs.Json.Readers
import Mailroom.Proofs.Json.WrittenObjects

/-!
# What is written is short

A text cannot be spelled in fewer bytes than it is written in, since only what must be escaped is
escaped, and in the shortest way. An object or a list is not shorter than its items, each of them
with a byte beside it, and no shorter than an object or a list that is written for as little.
-/

namespace Mailroom.Json

open Ascii

namespace Text

variable {b e : UInt8} {w m : Bytes} {s : String}

theorem length_escape_le (b : UInt8) : (escape b).length ≤ 6 := by
  rcases escape_cases b with ⟨e, -, form⟩ | ⟨-, form⟩ | ⟨-, -, -, form⟩
  · rw [form, List.length_cons, List.length_singleton]
    omega
  · rw [form]
    exact Nat.le_refl 6
  · rw [form, List.length_singleton]
    omega

theorem escape_of_plain (notQuote : b ≠ quote) (notBackslash : b ≠ backslash)
    (notControl : ¬ b < space) : escape b = [b] := by
  have other : ∀ c < space, b ≠ c := by
    rintro c control rfl
    exact notControl control
  rw [escape, if_neg notQuote, if_neg notBackslash, if_neg (other 8 (by decide)),
    if_neg (other formFeed (by decide)), if_neg (other lineFeed (by decide)),
    if_neg (other carriageReturn (by decide)), if_neg (other tab (by decide)), if_neg notControl]

theorem length_escape_of_short (named : shortEscape? e = some b) : (escape b).length ≤ 2 := by
  unfold shortEscape? at named
  repeat' split at named
  all_goals
    cases named
    try decide

/-- The bytes of a code point beyond ASCII are written as they are. -/
theorem flatMap_escape_of_high (high : ∀ b ∈ m, 128 ≤ b) : m.flatMap escape = m := by
  induction m with
  | nil => rfl
  | cons b m ih =>
    have large : 128 ≤ b := high b List.mem_cons_self
    have other : ∀ c < 128, b ≠ c := by
      rintro c small rfl
      exact absurd (UInt8.lt_of_lt_of_le small large) (UInt8.lt_irrefl _)
    have notControl : ¬ b < space := by
      intro control
      exact other b (UInt8.lt_trans control (by decide)) rfl
    have rest := ih fun c mem => high c (List.mem_cons_of_mem b mem)
    rw [List.flatMap_cons, escape_of_plain (other quote (by decide)) (other backslash (by decide))
      notControl, rest]
    rfl

theorem high_of_sum {x y : Nat} (large : 128 ≤ y) (small : x + y < 256) :
    128 ≤ UInt8.ofNat (x + y) := by
  rw [UInt8.le_iff_toNat_le, UInt8.toNat_ofNat', Nat.mod_eq_of_lt small]
  exact Nat.le_trans large (Nat.le_add_left y x)

theorem codePoint_cases (n : Nat) :
    (∃ b, Utf8.encodeCodePoint n = [b]) ∨ ∀ b ∈ Utf8.encodeCodePoint n, 128 ≤ b := by
  rw [Utf8.encodeCodePoint, String.utf8EncodeChar]
  split
  · exact .inl ⟨_, rfl⟩
  · -- every other byte has a marker in its upper bits
    right
    intro b mem
    split at mem
    · simp only [List.mem_cons, List.not_mem_nil, or_false] at mem
      rcases mem with rfl | rfl <;> exact high_of_sum (by omega) (by omega)
    · split at mem
      · simp only [List.mem_cons, List.not_mem_nil, or_false] at mem
        rcases mem with rfl | rfl | rfl <;> exact high_of_sum (by omega) (by omega)
      · simp only [List.mem_cons, List.not_mem_nil, or_false] at mem
        rcases mem with rfl | rfl | rfl | rfl <;> exact high_of_sum (by omega) (by omega)

theorem length_escape_codePoint_le (n : Nat) :
    ((Utf8.encodeCodePoint n).flatMap escape).length ≤ 6 := by
  rcases codePoint_cases n with ⟨b, single⟩ | high
  · rw [single, List.flatMap_singleton]
    exact length_escape_le b
  · have few : (Utf8.encodeCodePoint n).length ≤ 4 := by
      rw [Utf8.encodeCodePoint, String.length_utf8EncodeChar]
      exact Char.utf8Size_le_four _
    rw [flatMap_escape_of_high high]
    omega

theorem length_le_of_body (body : Body w m) : (m.flatMap escape).length ≤ w.length := by
  induction body with
  | nil => exact Nat.le_refl 0
  | plain notQuote notBackslash notControl more ih =>
    rw [List.flatMap_cons, escape_of_plain notQuote notBackslash notControl]
    exact Nat.succ_le_succ ih
  | short named more ih =>
    have few := length_escape_of_short named
    rw [List.flatMap_cons, List.length_append, List.length_cons, List.length_cons]
    omega
  | @unit a b c d n w m named notLeading notTrailing more ih =>
    have few := length_escape_codePoint_le n
    rw [List.flatMap_append, List.length_append]
    simp only [List.length_cons]
    omega
  | @pair a b c d a' b' c' d' n n' w m named leading named' trailing more ih =>
    have few := length_escape_codePoint_le (pairValue n n')
    rw [List.flatMap_append, List.length_append]
    simp only [List.length_cons]
    omega

theorem spells_write (s : String) : Spells (write s) s := by
  have taken := read_tail_write s []
  rw [List.append_nil] at taken
  obtain ⟨w, whole, form⟩ := spells_of_read taken
  rw [List.append_nil] at whole
  rw [write_eq_cons, whole]
  exact form

theorem length_write_le (form : Spells w s) : (write s).length ≤ w.length := by
  obtain ⟨body, rfl, inside⟩ := form
  have few := length_le_of_body inside
  simp only [write, List.length_append, List.length_cons, List.length_nil]
  omega

end Text

theorem spellsNatural_write (n : UInt64) : SpellsNatural (writeNatural n.toNat) n := by
  obtain ⟨b, s, shown, -⟩ := writeNatural_eq_cons n.toNat
  have given : writeNatural n.toNat ≠ [] := by
    rw [shown]
    exact List.cons_ne_nil b s
  have digits : ∀ b ∈ writeNatural n.toNat, isDigit b := fun b mem =>
    isDigit_of_mem_writeNatural mem
  exact ⟨decimal n.toNat, ⟨⟨given, digits, rfl⟩, decimal_ne_zero_cons n.toNat⟩,
    value_decimal n.toNat⟩

/-- What items take up together, each of them with a byte beside it. -/
def weight {α : Type} (cost : α → Nat) : List α → Nat
  | [] => 0
  | a :: as => cost a + 1 + weight cost as

section

variable {α : Type} {opening closing : UInt8} {Item : α → Bytes → Prop} {cost : α → Nat}
  {as : List α} {w : Bytes}

theorem weight_append (cost : α → Nat) (as as' : List α) :
    weight cost (as ++ as') = weight cost as + weight cost as' := by
  induction as with
  | nil => rw [List.nil_append, weight, Nat.zero_add]
  | cons a as ih =>
    rw [List.cons_append, weight, weight, ih]
    omega

theorem weight_filter (cost : α → Nat) (p : α → Prop) [DecidablePred p] (as : List α) :
    weight cost (as.filter fun a => p a) + weight cost (as.filter fun a => ¬ p a) =
      weight cost as := by
  induction as with
  | nil => rfl
  | cons a as ih =>
    by_cases here : p a
    · simp only [List.filter_cons, here, decide_true, not_true, decide_false, if_true, weight]
      simp only [Bool.false_eq_true, if_false]
      omega
    · simp only [List.filter_cons, here, decide_false, not_false_eq_true, decide_true, if_true,
        weight]
      simp only [Bool.false_eq_true, if_false]
      omega

theorem weight_lt_of_continues (each : ∀ a p, Item a p → cost a ≤ p.length)
    (form : Continues closing Item as w) : weight cost as < w.length := by
  induction form with
  | nil before =>
    rw [List.length_append, List.length_singleton, weight]
    omega
  | cons before after item more ih =>
    have first := each _ _ item
    simp only [List.length_append, List.length_cons, weight]
    omega

theorem weight_lt_of_enclosed (each : ∀ a p, Item a p → cost a ≤ p.length)
    (form : Enclosed opening closing Item as w) : weight cost as < w.length := by
  cases form with
  | nil inside => exact Nat.succ_pos _
  | cons after item more =>
    have first := each _ _ item
    have others := weight_lt_of_continues each more
    simp only [List.length_append, List.length_cons, weight]
    omega

end

/-- The length of a member as it is written. -/
def memberLength (m : String × Bytes) : Nat := (Text.write m.1).length + 1 + m.2.length

theorem memberLength_le {m : String × Bytes} {p : Bytes} (member : Member Text.Spells m p) :
    memberLength m ≤ p.length := by
  obtain ⟨key, before, after⟩ := member
  have name := Text.length_write_le key
  simp only [memberLength, List.length_append, List.length_cons]
  omega

theorem length_further (members : List (String × Bytes)) :
    (members.flatMap writeFurther).length = weight memberLength members := by
  induction members with
  | nil => rfl
  | cons m members ih =>
    rw [List.flatMap_cons, List.length_append, ih, weight, writeFurther, memberLength]
    simp only [List.length_append, List.length_cons]
    omega

theorem length_writeObject {members : List (String × Bytes)} (given : members ≠ []) :
    (writeObject members).length = weight memberLength members + 1 := by
  obtain ⟨⟨key, value⟩, members, rfl⟩ := List.exists_cons_of_ne_nil given
  rw [writeObject_cons, weight, memberLength]
  simp only [List.length_append, List.length_cons, List.length_nil, length_further]
  omega

section

variable {α : Type} {αs : List Type} {f : FieldShape α} {shape : Shape αs} {a : α} {t : Tuple αs}
  {ms written : List (String × Bytes)} {w : Bytes}

/-- What is given for a field is not shorter than these members. -/
def FieldShape.Covers (f : FieldShape α) (a : α) (written : List (String × Bytes)) : Prop :=
  ∀ ms, (∀ m ∈ ms, m.1 = f.name) → f.Given ms a →
    weight memberLength written ≤ weight memberLength ms

theorem FieldShape.covers_member {value : Bytes} (needed : f.absent ≠ some a)
    (each : ∀ v, f.Spells v a → value.length ≤ v.length) : f.Covers a [(f.name, value)] := by
  intro ms named given
  match ms with
  | [] => exact absurd given needed
  | [m] =>
    have enough := each m.2 given
    have name := named m (List.mem_singleton.mpr rfl)
    simp only [weight, memberLength, name]
    omega
  | _ :: _ :: _ => exact given.elim

theorem FieldShape.covers_nothing (f : FieldShape α) (a : α) : f.Covers a [] :=
  fun _ _ _ => Nat.zero_le _

/-- The same for all fields of a record, one after the other. -/
inductive Shape.Covers : {αs : List Type} → Shape αs → Tuple αs → List (String × Bytes) → Prop
  | nil : Covers .nil () []
  | cons {α : Type} {αs : List Type} {f : FieldShape α} {fields : Shape αs} {a : α} {t : Tuple αs}
      {written written' : List (String × Bytes)} (field : f.Covers a written)
      (others : Covers fields t written') : Covers (.cons f fields) (a, t) (written ++ written')

theorem Shape.Covers.weight_le (covers : shape.Covers t written) (given : shape.InAnyOrder ms t) :
    weight memberLength written ≤ weight memberLength ms := by
  induction covers generalizing ms with
  | nil => exact Nat.zero_le _
  | @cons α αs f fields a t written written' field others ih =>
    obtain ⟨mine, rest⟩ := given
    have named : ∀ m ∈ ms.filter fun m => m.1 = f.name, m.1 = f.name := by
      intro m mem
      exact of_decide_eq_true (List.mem_filter.mp mem).2
    have here := field _ named mine
    have later := ih rest
    have whole : weight memberLength (ms.filter fun m => m.1 = f.name) +
        weight memberLength (ms.filter fun m => m.1 ≠ f.name) = weight memberLength ms :=
      weight_filter memberLength (fun m => m.1 = f.name) ms
    rw [weight_append]
    omega

/-- A record that is an object. -/
def Shape.SpellsObject (shape : Shape αs) (w : Bytes) (t : Tuple αs) : Prop :=
  ∃ members, ObjectOf Text.Spells members w ∧ shape.InAnyOrder members t

theorem Shape.object_or_list (form : shape.Spells w t) :
    shape.SpellsObject w t ∨ ∃ vs, ListOf vs w ∧ shape.InOrder vs t := by
  cases form with
  | object form given => exact .inl ⟨_, form, given⟩
  | list form given => exact .inr ⟨_, form, given⟩

theorem Shape.SpellsObject.spells (object : shape.SpellsObject w t) : shape.Spells w t := by
  obtain ⟨members, form, given⟩ := object
  exact .object form given

theorem Shape.Covers.length_le (covers : shape.Covers t written) (given : written ≠ [])
    (form : shape.SpellsObject w t) : (writeObject written).length ≤ w.length := by
  obtain ⟨members, object, inAnyOrder⟩ := form
  have total := covers.weight_le inAnyOrder
  have inside : weight memberLength members < w.length :=
    weight_lt_of_enclosed (fun _ _ member => memberLength_le member) object
  rw [length_writeObject given]
  omega

/-- Where a field must be there, for its own sake or that of a later one, a list has a value for
it. -/
theorem Shape.exists_of_inOrder {fields : Shape αs} {vs : List Bytes}
    (given : (Shape.cons f fields).InOrder vs (a, t))
    (needed : ¬ (Shape.cons f fields).InOrder [] (a, t)) :
    ∃ v vs', vs = v :: vs' ∧ f.Spells v a ∧ fields.InOrder vs' t := by
  cases vs with
  | nil => exact absurd given needed
  | cons v vs => exact ⟨v, vs, rfl, given⟩

theorem Shape.exists_of_required {fields : Shape αs} {vs : List Bytes} (required : f.absent = none)
    (given : (Shape.cons f fields).InOrder vs (a, t)) :
    ∃ v vs', vs = v :: vs' ∧ f.Spells v a ∧ fields.InOrder vs' t := by
  apply Shape.exists_of_inOrder given
  rintro ⟨absent, -⟩
  rw [required] at absent
  cases absent

theorem weight_lt_of_list {vs : List Bytes} (form : ListOf vs w) :
    weight List.length vs < w.length := by
  apply weight_lt_of_enclosed _ form
  rintro v p rfl
  exact Nat.le_refl _

end

theorem continues_members (ms : List (String × Bytes)) :
    Continues closeBrace (Member Text.Spells) ms (ms.flatMap writeFurther ++ [closeBrace]) := by
  induction ms with
  | nil => exact .nil spaces_nil
  | cons m ms ih =>
    have member : Member Text.Spells m _ := .intro (Text.spells_write m.1) spaces_nil spaces_nil
    have more : Continues closeBrace (Member Text.Spells) (m :: ms) _ :=
      .cons spaces_nil spaces_nil member ih
    simpa [writeFurther] using more

theorem objectOf_writeObject (m : String × Bytes) (ms : List (String × Bytes)) :
    ObjectOf Text.Spells (m :: ms) (writeObject (m :: ms)) := by
  have member : Member Text.Spells m _ := .intro (Text.spells_write m.1) spaces_nil spaces_nil
  have form : ObjectOf Text.Spells (m :: ms) _ := .cons spaces_nil member (continues_members ms)
  rw [writeObject_cons]
  simpa using form

/-- A list without white space. -/
def writeList (values : List Bytes) : Bytes :=
  openBracket :: ([comma].intercalate values ++ [closeBracket])

theorem continues_values (values : List Bytes) :
    Continues closeBracket Eq values (values.flatMap (comma :: ·) ++ [closeBracket]) := by
  induction values with
  | nil => exact .nil spaces_nil
  | cons v values ih =>
    have more : Continues closeBracket Eq (v :: values) _ := .cons spaces_nil spaces_nil rfl ih
    simpa using more

theorem listOf_writeList (v : Bytes) (values : List Bytes) :
    ListOf (v :: values) (writeList (v :: values)) := by
  have form : ListOf (v :: values) _ := .cons spaces_nil rfl (continues_values values)
  rw [writeList, intercalate_comma]
  simpa using form

theorem length_writeList (v : Bytes) (values : List Bytes) :
    (writeList (v :: values)).length = weight List.length (v :: values) + 1 := by
  have others : (values.flatMap (comma :: ·)).length = weight List.length values := by
    induction values with
    | nil => rfl
    | cons v values ih =>
      rw [List.flatMap_cons, List.length_append, ih, List.length_cons, weight]
  rw [writeList, intercalate_comma]
  simp only [List.length_cons, List.length_append, List.length_nil, others, weight]
  omega

end Mailroom.Json
