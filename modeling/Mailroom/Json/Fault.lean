import Mailroom.Bytes
import Mailroom.Text.Quoted
import Mailroom.Decimal.Shortest

/-!
# What can be wrong with a JSON text

One constructor per cause, and the wording of each. Reading goes from left to right and stops at the
first fault, so a text has one fault at most.
-/

namespace Mailroom.Json

/-- A value that stands where another kind of value was expected. -/
inductive Found where
  | null
  | flag (b : Bool)
  | natural (n : Nat)
  /-- An integer below zero, by its distance from zero. -/
  | negative (n : Nat)
  /-- A number with a fraction or an exponent, or out of the range of integers, by its bits. -/
  | float (bits : UInt64)
  | text (s : String)
  | list
  | object
  deriving DecidableEq

def Found.describe : Found → String
  | .null => "null"
  | .flag b => "boolean `" ++ (if b then "true" else "false") ++ "`"
  | .natural n => "integer `" ++ toString n ++ "`"
  | .negative n => "integer `-" ++ toString n ++ "`"
  | .float bits => "floating point `" ++ Shortest.render bits ++ "`"
  | .text s => "string " ++ Quoted.encode s
  | .list => "sequence"
  | .object => "map"

inductive Fault where
  /-- The text ends where a value is due, or inside one. -/
  | endInValue
  | endInText
  | endInList
  | endInObject
  | expectedValue
  /-- A word that starts like null, true or false and goes on differently. -/
  | expectedWord
  | expectedColon
  | expectedCommaOrBrace
  | expectedCommaOrBracket
  | keyNotText
  | trailingComma
  | trailingCharacters
  | invalidNumber
  | numberOutOfRange
  | invalidEscape
  | unfinishedSurrogate
  | loneSurrogate
  | invalidCodePoint
  | controlCharacter
  | missingField (name : String)
  | duplicateField (name : String)
  | unknownVariant (name : String) (known : List String)
  | wrongType (found : Found) (expected : String)
  | wrongValue (found : Found) (expected : String)
  | wrongLength (length : Nat) (expected : String)
  deriving DecidableEq

def Fault.message : Fault → String
  | .endInValue => "EOF while parsing a value"
  | .endInText => "EOF while parsing a string"
  | .endInList => "EOF while parsing a list"
  | .endInObject => "EOF while parsing an object"
  | .expectedValue => "expected value"
  | .expectedWord => "expected ident"
  | .expectedColon => "expected `:`"
  | .expectedCommaOrBrace => "expected `,` or `\x7d`"
  | .expectedCommaOrBracket => "expected `,` or `]`"
  | .keyNotText => "key must be a string"
  | .trailingComma => "trailing comma"
  | .trailingCharacters => "trailing characters"
  | .invalidNumber => "invalid number"
  | .numberOutOfRange => "number out of range"
  | .invalidEscape => "invalid escape"
  | .unfinishedSurrogate => "unexpected end of hex escape"
  | .loneSurrogate => "lone leading surrogate in hex escape"
  | .invalidCodePoint => "invalid unicode code point"
  | .controlCharacter => "control character (\\u0000-\\u001F) found while parsing a string"
  | .missingField name => "missing field `" ++ name ++ "`"
  | .duplicateField name => "duplicate field `" ++ name ++ "`"
  | .unknownVariant name known =>
    "unknown variant `" ++ name ++ "`, expected one of " ++
      String.intercalate ", " (known.map fun k => "`" ++ k ++ "`")
  | .wrongType found expected => "invalid type: " ++ found.describe ++ ", expected " ++ expected
  | .wrongValue found expected => "invalid value: " ++ found.describe ++ ", expected " ++ expected
  | .wrongLength length expected =>
    "invalid length " ++ toString length ++ ", expected " ++ expected

/-- A reader takes a value off the front of the bytes and gives back the rest. -/
abbrev Reader (α : Type) := Bytes → Except Fault (α × Bytes)

end Mailroom.Json
