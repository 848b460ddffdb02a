import Mailroom.Json.Value

/-!
# Reading records

A record is a JSON object with known fields, or a JSON list of their values in the order in which
they are declared. In an object the fields come in any order, each at most once, and other members
are passed over. A field may have a value for the case that it is absent; in a list only fields at
the end can be.

Fields are declared once, by name and reader, and both forms are read from that declaration.
-/

namespace Mailroom.Json

open Ascii

structure RecordField (α : Type) where
  name : String
  read : Reader α
  /-- What an absent field stands for. Without one the field is required. -/
  absent : Option α

namespace RecordField

def text (name : String) : RecordField String := ⟨name, readText, none⟩
def natural (name : String) : RecordField UInt64 := ⟨name, readNatural, none⟩
def flag (name : String) : RecordField Bool := ⟨name, readFlag, none⟩

/-- A field that may be absent or null. -/
def optional {α : Type} (name : String) (read : Reader α) : RecordField (Option α) :=
  ⟨name, readNullable read, some none⟩

end RecordField

/-- The fields of a record with values of these types, in order of declaration. -/
inductive Fields : List Type → Type 1 where
  | nil : Fields []
  | cons {α : Type} {αs : List Type} (field : RecordField α) (rest : Fields αs) : Fields (α :: αs)

/-- One value of each type. -/
def Tuple : List Type → Type
  | [] => Unit
  | α :: αs => α × Tuple αs

/-- For each type a value, or none yet. -/
def Slots : List Type → Type
  | [] => Unit
  | α :: αs => Option α × Slots αs

namespace Fields

def count {αs : List Type} (_ : Fields αs) : Nat := αs.length

def noneYet {αs : List Type} : Fields αs → Slots αs
  | .nil => ()
  | .cons _ fields => (none, fields.noneYet)

/-- The values of all fields, those of absent ones included. -/
def complete {αs : List Type} : Fields αs → Slots αs → Except Fault (Tuple αs)
  | .nil, () => .ok ()
  | .cons field fields, (slot, slots) =>
    match slot.or field.absent with
    | none => .error (.missingField field.name)
    | some a => (fields.complete slots).map fun t => (a, t)

/-- The rest of a member whose key is `key`, or nothing if no field has that name. That a field is
given twice is noticed at its key. -/
def readMember? {αs : List Type} :
    Fields αs → Slots αs → (key : String) → Bytes → Option (Except Fault (Slots αs × Bytes))
  | .nil, _, _, _ => none
  | .cons field fields, (slot, slots), key, s =>
    if key = field.name then
      some <| match slot with
        | some _ => .error (.duplicateField field.name)
        | none => do
          let (a, s) ← field.read (← readColon s)
          .ok ((some a, slots), s)
    else
      (fields.readMember? slots key s).map fun result =>
        result.map fun (slots, s) => ((slot, slots), s)

/-- The members of an object from inside a key up to the closing brace. `fuel` bounds how many there
are. -/
def readMembersWith {αs : List Type} (fields : Fields αs) :
    (fuel : Nat) → Slots αs → Bytes → Except Fault (Slots αs × Bytes)
  | 0, _, _ => .error .endInText
  | fuel + 1, slots, s => do
    let (key, s) ← Text.read s
    let (slots, s) ← match fields.readMember? slots key s with
      | some result => result
      | none => (skipValue (← readColon s)).map fun s => (slots, s)
    match skipSpace s with
    | [] => .error .endInObject
    | b :: s =>
      if b = closeBrace then .ok (slots, s)
      else if b = comma then
        match skipSpace s with
        | [] => .error .endInValue
        | c :: s =>
          if c = quote then fields.readMembersWith fuel slots s
          else if c = closeBrace then .error .trailingComma
          else .error .keyNotText
      else .error .expectedCommaOrBrace

/-- An object after its opening brace. -/
def readObject {αs : List Type} (fields : Fields αs) : Reader (Tuple αs) := fun s => do
  let (slots, s) ← match skipSpace s with
    | [] => .error .endInObject
    | b :: s =>
      if b = closeBrace then .ok (fields.noneYet, s)
      else if b = quote then fields.readMembersWith s.length.succ fields.noneYet s
      else .error .keyNotText
  .ok (← fields.complete slots, s)

/-- Where the next element of a list starts, or nothing at the closing bracket. -/
def nextElement? (first : Bool) (s : Bytes) : Except Fault (Option Bytes) :=
  match skipSpace s with
  | [] => .error .endInList
  | b :: s =>
    if b = closeBracket then .ok none
    else if first then .ok (some (b :: s))
    else if b = comma then
      match skipSpace s with
      | [] => .error .endInValue
      | c :: s => if c = closeBracket then .error .trailingComma else .ok (some (c :: s))
    else .error .expectedCommaOrBracket

/-- The elements of a list, the first of them number `index`. -/
def readElements (expected : String) {αs : List Type} :
    Fields αs → (index : Nat) → (first : Bool) → Reader (Tuple αs)
  | .nil, _, _, s => .ok ((), s)
  | .cons field fields, index, first, s => do
    match ← nextElement? first s with
    | some s =>
      let (a, s) ← field.read s
      let (t, s) ← fields.readElements expected (index + 1) false s
      .ok ((a, t), s)
    | none =>
      match field.absent with
      | none => .error (.wrongLength index expected)
      | some a =>
        let (t, s) ← fields.readElements expected (index + 1) first s
        .ok ((a, t), s)

/-- The closing bracket of a list that has all its elements. -/
def endList (s : Bytes) : Except Fault Bytes :=
  match skipSpace s with
  | [] => .error .endInList
  | b :: s =>
    if b = closeBracket then .ok s
    else if b = comma then
      match skipSpace s with
      | [] => .error .trailingCharacters
      | c :: _ => .error (if c = closeBracket then .trailingComma else .trailingCharacters)
    else .error .trailingCharacters

/-- A record in either form. Messages call it by `name`. -/
def read {αs : List Type} (name : String) (fields : Fields αs) : Reader (Tuple αs) := fun s =>
  match skipSpace s with
  | [] => .error .endInValue
  | b :: s =>
    if b = openBrace then fields.readObject s
    else if b = openBracket then do
      let expected := "struct " ++ name ++ " with " ++ toString fields.count ++ " elements"
      let (t, s) ← fields.readElements expected 0 true s
      .ok (t, ← endList s)
    else .error (wrongType ("struct " ++ name) (b :: s))

end Fields

/-- A text that names one of several known variants, either by itself or as the only key of an
object with the value null. -/
def readVariant {α : Type} (known : List (String × α)) : Reader α := fun s =>
  match skipSpace s with
  | [] => .error .endInValue
  | b :: s =>
    if b = quote then do
      let (name, s) ← Text.read s
      .ok (← variant name, s)
    else if b = openBrace then do
      let (name, s) ← readTextAs "variant identifier" s
      let a ← variant name
      let ((), s) ← readNull (← readColon s)
      match skipSpace s with
      | [] => .error .endInObject
      | b :: s => if b = closeBrace then .ok (a, s) else .error .expectedValue
    else .error .expectedValue
where
  variant (name : String) : Except Fault α :=
    match known.find? fun (k, _) => k = name with
    | some (_, a) => .ok a
    | none => .error (.unknownVariant name (known.map Prod.fst))

/-- The whole of the bytes has to be one value; white space may follow it. -/
def readEnd (s : Bytes) : Except Fault Unit :=
  match skipSpace s with
  | [] => .ok ()
  | _ :: _ => .error .trailingCharacters

end Mailroom.Json
