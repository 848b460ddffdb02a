import Mailroom.Json.Number
import Mailroom.Json.Text

/-!
# Passing over a JSON value

Fields nobody asked for are passed over, whatever is nested in them. What is passed over has to have
the shape of a value, but it is not given a meaning: numbers of any size will do, and strings need
not be text.
-/

namespace Mailroom.Json

open Ascii

/-- The white space between tokens. -/
def isSpace (b : UInt8) : Bool :=
  b = space || b = lineFeed || b = tab || b = carriageReturn

def skipSpace (s : Bytes) : Bytes := s.dropWhile isSpace

/-- The rest of a word whose first letter is already taken. -/
def readWord : (letters : Bytes) → Bytes → Except Fault Bytes
  | [], s => .ok s
  | _ :: _, [] => .error .endInValue
  | l :: ls, b :: s => if b = l then readWord ls s else .error .expectedWord

/-- The three words, without their first letters. -/
def ullWord : Bytes := Bytes.ofAscii "ull"
def rueWord : Bytes := Bytes.ofAscii "rue"
def alseWord : Bytes := Bytes.ofAscii "alse"

/-- What comes after a key: a colon, white space around it allowed. -/
def readColon (s : Bytes) : Except Fault Bytes :=
  match skipSpace s with
  | [] => .error .endInObject
  | b :: s => if b = colon then .ok s else .error .expectedColon

mutual

/-- A value of any kind. `fuel` bounds how many values and members are entered; the number of bytes
is always enough. -/
def skipValueWith : (fuel : Nat) → Bytes → Except Fault Bytes
  | 0, _ => .error .endInValue
  | fuel + 1, s =>
    match skipSpace s with
    | [] => .error .endInValue
    | b :: s =>
      if b = ofChar 'n' then readWord ullWord s
      else if b = ofChar 't' then readWord rueWord s
      else if b = ofChar 'f' then readWord alseWord s
      else if b = minus || isDigit b then Number.skip (b :: s)
      else if b = quote then Text.skip s
      else if b = openBracket then
        match skipSpace s with
        | [] => .error .endInList
        | c :: s =>
          if c = closeBracket then .ok s else skipElementsWith fuel (c :: s)
      else if b = openBrace then
        match skipSpace s with
        | [] => .error .endInObject
        | c :: s =>
          if c = closeBrace then .ok s else skipMembersWith fuel (c :: s)
      else .error .expectedValue

/-- The elements of a list from one that is due up to the closing bracket. -/
def skipElementsWith : (fuel : Nat) → Bytes → Except Fault Bytes
  | 0, _ => .error .endInValue
  | fuel + 1, s =>
    match skipValueWith fuel s with
    | .error e => .error e
    | .ok s =>
      match skipSpace s with
      | [] => .error .endInList
      | b :: s =>
        if b = comma then skipElementsWith fuel s
        else if b = closeBracket then .ok s
        else .error .expectedCommaOrBracket

/-- The members of an object from one that is due up to the closing brace. -/
def skipMembersWith : (fuel : Nat) → Bytes → Except Fault Bytes
  | 0, _ => .error .endInObject
  | fuel + 1, s =>
    match skipSpace s with
    | [] => .error .endInObject
    | b :: s =>
      if b ≠ quote then .error .keyNotText
      else match Text.skip s with
        | .error e => .error e
        | .ok s =>
          match readColon s with
          | .error e => .error e
          | .ok s =>
            match skipValueWith fuel s with
            | .error e => .error e
            | .ok s =>
              match skipSpace s with
              | [] => .error .endInObject
              | b :: s =>
                if b = comma then skipMembersWith fuel s
                else if b = closeBrace then .ok s
                else .error .expectedCommaOrBrace

end

def skipValue (s : Bytes) : Except Fault Bytes := skipValueWith (2 * s.length + 1) s

end Mailroom.Json
