/-!
# Bytes

Everything that travels between a client and the relay is a list of bytes. This module holds the
type, the names of the ASCII bytes the wire format gives a meaning to, blank lines, and the
lowercase hexadecimal form of a byte.

Nothing here knows of text: the bytes of a string are in `Mailroom.Text.Utf8`.
-/

namespace Mailroom

abbrev Bytes := List UInt8

namespace Ascii

@[match_pattern] abbrev tab : UInt8 := 9
@[match_pattern] abbrev lineFeed : UInt8 := 10
@[match_pattern] abbrev formFeed : UInt8 := 12
@[match_pattern] abbrev carriageReturn : UInt8 := 13
@[match_pattern] abbrev space : UInt8 := 32
@[match_pattern] abbrev quote : UInt8 := 34
@[match_pattern] abbrev plus : UInt8 := 43
@[match_pattern] abbrev comma : UInt8 := 44
@[match_pattern] abbrev minus : UInt8 := 45
@[match_pattern] abbrev dot : UInt8 := 46
@[match_pattern] abbrev slash : UInt8 := 47
@[match_pattern] abbrev zero : UInt8 := 48
@[match_pattern] abbrev nine : UInt8 := 57
@[match_pattern] abbrev colon : UInt8 := 58
@[match_pattern] abbrev equals : UInt8 := 61
@[match_pattern] abbrev openBracket : UInt8 := 91
@[match_pattern] abbrev backslash : UInt8 := 92
@[match_pattern] abbrev closeBracket : UInt8 := 93
@[match_pattern] abbrev openBrace : UInt8 := 123
@[match_pattern] abbrev closeBrace : UInt8 := 125

/-- The byte of an ASCII character. -/
abbrev ofChar (c : Char) : UInt8 := UInt8.ofNat c.toNat

def isDigit (b : UInt8) : Bool := zero ≤ b && b ≤ nine

/-- The value of a decimal digit. -/
def digitValue (b : UInt8) : Nat := b.toNat - zero.toNat

/-- White space at the ends of a line: space, tab, line feed, form feed, carriage return. -/
def isBlank (b : UInt8) : Bool :=
  b = space || b = tab || b = lineFeed || b = formFeed || b = carriageReturn

/-- The value of a hexadecimal digit of either case. -/
def hexValue? (b : UInt8) : Option Nat :=
  if 48 ≤ b && b ≤ 57 then some (b.toNat - 48)
  else if 65 ≤ b && b ≤ 70 then some (b.toNat - 55)
  else if 97 ≤ b && b ≤ 102 then some (b.toNat - 87)
  else none

/-- The lowercase hexadecimal digit of a number below sixteen. -/
def hexDigit (n : Nat) : UInt8 :=
  if n < 10 then UInt8.ofNat (48 + n) else UInt8.ofNat (87 + n)

end Ascii

namespace Bytes

/-- The bytes of a text that is ASCII throughout, such as a field name. -/
def ofAscii (s : String) : Bytes := s.toList.map Ascii.ofChar

/-- A line that carries nothing. -/
def isBlank (s : Bytes) : Bool := s.all Ascii.isBlank

/-- The bytes without the blanks at their end. -/
def trimEnd (s : Bytes) : Bytes := (s.reverse.dropWhile Ascii.isBlank).reverse

/-- Two lowercase hexadecimal digits for each byte. -/
def hex (s : Bytes) : String :=
  let digit (n : Nat) : Char := Char.ofNat (Ascii.hexDigit n).toNat
  String.ofList (s.flatMap fun b => [digit (b.toNat / 16), digit (b.toNat % 16)])

end Bytes

end Mailroom
