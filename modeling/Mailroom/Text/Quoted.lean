import Mailroom.Text.Hidden

/-!
# Quoted text

The form in which a message shows a text that was not understood: between double quotes, with
short escapes for the common control characters and code points for whatever does not show.
-/

namespace Mailroom.Quoted

/-- The code point of a character in lowercase hexadecimal, between braces. -/
def codePoint (c : Char) : List Char :=
  ['\\', 'u', '\x7b'] ++ Nat.toDigits 16 c.toNat ++ ['\x7d']

def encodeChar (c : Char) : List Char :=
  if c = '\x00' then ['\\', '0']
  else if c = '\t' then ['\\', 't']
  else if c = '\r' then ['\\', 'r']
  else if c = '\n' then ['\\', 'n']
  else if c = '"' then ['\\', '"']
  else if c = '\\' then ['\\', '\\']
  else if Hidden.isHidden c then codePoint c
  else [c]

def encode (s : String) : String :=
  String.ofList (['"'] ++ s.toList.flatMap encodeChar ++ ['"'])

end Mailroom.Quoted
