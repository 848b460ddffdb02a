import Mailroom.Json.Record

/-!
# A grammar of records

Which bytes spell a record, said without a reader. Strings may have any escapes and numbers their
usual form. In an object the members come in any order; members with other names than those of the
fields are values of any kind, in which neither strings nor numbers are given a meaning. White space
may stand around everything, and is not part of what it stands around.
-/

namespace Mailroom.Json

open Ascii

/-- White space, or nothing. -/
def Spaces (w : Bytes) : Prop := ∀ b ∈ w, isSpace b

namespace Text

/-- What stands between the quotes of a string, and the bytes that it stands for. -/
inductive Body : Bytes → Bytes → Prop
  | nil : Body [] []
  | plain {b : UInt8} {w m : Bytes} (notQuote : b ≠ quote) (notBackslash : b ≠ backslash)
      (notControl : ¬ b < space) (more : Body w m) : Body (b :: w) (b :: m)
  | short {e b : UInt8} {w m : Bytes} (named : shortEscape? e = some b) (more : Body w m) :
      Body (backslash :: e :: w) (b :: m)
  | unit {a b c d : UInt8} {n : Nat} {w m : Bytes} (named : hexUnit? a b c d = some n)
      (notLeading : isLeading n = false) (notTrailing : isTrailing n = false) (more : Body w m) :
      Body (backslash :: ofChar 'u' :: a :: b :: c :: d :: w) (Utf8.encodeCodePoint n ++ m)
  | pair {a b c d a' b' c' d' : UInt8} {n n' : Nat} {w m : Bytes}
      (named : hexUnit? a b c d = some n) (leading : isLeading n)
      (named' : hexUnit? a' b' c' d' = some n') (trailing : isTrailing n') (more : Body w m) :
      Body (backslash :: ofChar 'u' :: a :: b :: c :: d ::
          backslash :: ofChar 'u' :: a' :: b' :: c' :: d' :: w)
        (Utf8.encodeCodePoint (pairValue n n') ++ m)

/-- A string in its quotes. -/
def Spells (w : Bytes) (s : String) : Prop :=
  ∃ body, w = quote :: (body ++ [quote]) ∧ Body body (Utf8.encode s)

/-- What stands between the quotes of a string that is passed over. -/
inductive Loose : Bytes → Prop
  | nil : Loose []
  | plain {b : UInt8} {w : Bytes} (notQuote : b ≠ quote) (notBackslash : b ≠ backslash)
      (notControl : ¬ b < space) (more : Loose w) : Loose (b :: w)
  | short {e b : UInt8} {w : Bytes} (named : shortEscape? e = some b) (more : Loose w) :
      Loose (backslash :: e :: w)
  | unit {a b c d : UInt8} {n : Nat} {w : Bytes} (named : hexUnit? a b c d = some n)
      (more : Loose w) : Loose (backslash :: ofChar 'u' :: a :: b :: c :: d :: w)

/-- A string that is passed over, in its quotes. -/
def Quotes (w body : Bytes) : Prop := w = quote :: (body ++ [quote]) ∧ Loose body

end Text

namespace Literal

/-- Digits and their values, at least one. -/
def Digits (w : Bytes) (ds : List Nat) : Prop :=
  w ≠ [] ∧ (∀ b ∈ w, isDigit b) ∧ w.map digitValue = ds

/-- Digits of which the first is zero only if it is alone. -/
def Whole (w : Bytes) (ds : List Nat) : Prop := Digits w ds ∧ ∀ d ds', ds ≠ 0 :: d :: ds'

inductive Fraction : Bytes → Option (List Nat) → Prop
  | none : Fraction [] none
  | some {w : Bytes} {ds : List Nat} (digits : Digits w ds) : Fraction (dot :: w) (some ds)

/-- The sign of an exponent, and whether it is a minus. -/
inductive Sign : Bytes → Bool → Prop
  | none : Sign [] false
  | plus : Sign [plus] false
  | minus : Sign [minus] true

inductive Exponent : Bytes → Option (Bool × List Nat) → Prop
  | none : Exponent [] none
  | some {b : UInt8} {w w' : Bytes} {negative : Bool} {ds : List Nat}
      (letter : b = ofChar 'e' ∨ b = ofChar 'E') (sign : Sign w negative) (digits : Digits w' ds) :
      Exponent (b :: (w ++ w')) (some (negative, ds))

inductive Spells : Bytes → Literal → Prop
  | positive {w w' w'' : Bytes} {ds : List Nat} {f : Option (List Nat)}
      {e : Option (Bool × List Nat)} (whole : Whole w ds) (fraction : Fraction w' f)
      (exponent : Exponent w'' e) : Spells (w ++ (w' ++ w'')) ⟨false, ds, f, e⟩
  | negative {w w' w'' : Bytes} {ds : List Nat} {f : Option (List Nat)}
      {e : Option (Bool × List Nat)} (whole : Whole w ds) (fraction : Fraction w' f)
      (exponent : Exponent w'' e) : Spells (minus :: (w ++ (w' ++ w''))) ⟨true, ds, f, e⟩

end Literal

/-- An integer of 64 bits. -/
def SpellsNatural (w : Bytes) (n : UInt64) : Prop :=
  ∃ ds, Literal.Whole w ds ∧ Literal.value ds = n.toNat

def SpellsFlag (w : Bytes) (b : Bool) : Prop := w = Bytes.ofAscii (if b then "true" else "false")

def SpellsNull (w : Bytes) : Prop := w = Bytes.ofAscii "null"

section

variable {α κ : Type}

/-- What comes in a list or an object after an item of it: further items, each after a comma, and
the closing byte. -/
inductive Continues (closing : UInt8) (Item : α → Bytes → Prop) : List α → Bytes → Prop
  | nil {ws : Bytes} (before : Spaces ws) : Continues closing Item [] (ws ++ [closing])
  | cons {ws ws' p w : Bytes} {a : α} {as : List α} (before : Spaces ws) (after : Spaces ws')
      (item : Item a p) (more : Continues closing Item as w) :
      Continues closing Item (a :: as) (ws ++ comma :: (ws' ++ (p ++ w)))

/-- A list or an object with these items. -/
inductive Enclosed (opening closing : UInt8) (Item : α → Bytes → Prop) : List α → Bytes → Prop
  | nil {ws : Bytes} (inside : Spaces ws) :
      Enclosed opening closing Item [] (opening :: (ws ++ [closing]))
  | cons {ws p w : Bytes} {a : α} {as : List α} (after : Spaces ws) (item : Item a p)
      (more : Continues closing Item as w) :
      Enclosed opening closing Item (a :: as) (opening :: (ws ++ (p ++ w)))

/-- A list of these values. -/
abbrev ListOf : List Bytes → Bytes → Prop := Enclosed openBracket closeBracket Eq

/-- A key, a colon and a value. -/
inductive Member (Key : Bytes → κ → Prop) : κ × Bytes → Bytes → Prop
  | intro {k ws ws' v : Bytes} {name : κ} (key : Key k name) (before : Spaces ws)
      (after : Spaces ws') : Member Key (name, v) (k ++ (ws ++ colon :: (ws' ++ v)))

/-- An object with these members. -/
abbrev ObjectOf (Key : Bytes → κ → Prop) : List (κ × Bytes) → Bytes → Prop :=
  Enclosed openBrace closeBrace (Member Key)

end

/-- A value of any kind, whatever is nested in it. -/
inductive Value : Bytes → Prop
  | null {w : Bytes} (form : SpellsNull w) : Value w
  | flag {w : Bytes} {b : Bool} (form : SpellsFlag w b) : Value w
  | number {w : Bytes} {l : Literal} (form : Literal.Spells w l) : Value w
  | text {w body : Bytes} (form : Text.Quotes w body) : Value w
  | list {w : Bytes} {values : List Bytes} (form : ListOf values w) (all : ∀ v ∈ values, Value v) :
      Value w
  | object {w : Bytes} {members : List (Bytes × Bytes)} (form : ObjectOf Text.Quotes members w)
      (all : ∀ m ∈ members, Value m.2) : Value w

/-- Null for nothing, or a value. -/
def SpellsNullable {α : Type} (Spells : Bytes → α → Prop) (w : Bytes) : Option α → Prop
  | none => SpellsNull w
  | some a => Spells w a

/-- One of several variants: its name, or an object in which its name stands with null. -/
def SpellsVariant {α : Type} (tag : α → String) (w : Bytes) (a : α) : Prop :=
  Text.Spells w (tag a) ∨ ∃ v, SpellsNull v ∧ ObjectOf Text.Spells [(tag a, v)] w

/-- A field of a record: its name, what its values look like, and what it stands for if it is not
there. -/
structure FieldShape (α : Type) where
  name : String
  Spells : Bytes → α → Prop
  absent : Option α

namespace FieldShape

variable {α : Type}

def text (name : String) : FieldShape String := ⟨name, Text.Spells, none⟩
def natural (name : String) : FieldShape UInt64 := ⟨name, SpellsNatural, none⟩
def flag (name : String) : FieldShape Bool := ⟨name, SpellsFlag, none⟩

def optional (name : String) (Spells : Bytes → α → Prop) : FieldShape (Option α) :=
  ⟨name, SpellsNullable Spells, some none⟩

/-- What the members under its name give for a field. There is one at most. -/
def Given (f : FieldShape α) : List (String × Bytes) → α → Prop
  | [], a => f.absent = some a
  | [m], a => f.Spells m.2 a
  | _, _ => False

end FieldShape

/-- The fields of a record in the order in which they are declared. -/
inductive Shape : List Type → Type 1 where
  | nil : Shape []
  | cons {α : Type} {αs : List Type} (field : FieldShape α) (rest : Shape αs) : Shape (α :: αs)

namespace Shape

/-- Members that come in any order. Those that belong to no field have values of any kind. -/
def InAnyOrder {αs : List Type} : Shape αs → List (String × Bytes) → Tuple αs → Prop
  | .nil, members, () => ∀ m ∈ members, Value m.2
  | .cons f fields, members, (a, t) =>
    f.Given (members.filter fun m => m.1 = f.name) a ∧
      fields.InAnyOrder (members.filter fun m => m.1 ≠ f.name) t

/-- Values that come in the order of the fields. Some at the end may not be there. -/
def InOrder {αs : List Type} : Shape αs → List Bytes → Tuple αs → Prop
  | .nil, values, () => values = []
  | .cons f fields, [], (a, t) => f.absent = some a ∧ fields.InOrder [] t
  | .cons f fields, v :: values, (a, t) => f.Spells v a ∧ fields.InOrder values t

/-- A record in either form. -/
inductive Spells {αs : List Type} (shape : Shape αs) : Bytes → Tuple αs → Prop
  | object {w : Bytes} {members : List (String × Bytes)} {t : Tuple αs}
      (form : ObjectOf Text.Spells members w) (given : shape.InAnyOrder members t) :
      shape.Spells w t
  | list {w : Bytes} {values : List Bytes} {t : Tuple αs} (form : ListOf values w)
      (given : shape.InOrder values t) : shape.Spells w t

end Shape

end Mailroom.Json
