import Mailroom.Json.Fault
import Mailroom.Text.Utf8

/-!
# JSON strings

A string is read in one of two ways. One that is kept is unescaped, its surrogates are paired up and
its bytes must be those of a text. One that is only passed over needs well-shaped escapes and no raw
control character; its code points are not looked at.

Both readers start after the opening quote. Writing escapes what it must and nothing else.
-/

namespace Mailroom.Json.Text

open Ascii

/-- The number written by four hexadecimal digits. -/
def hexUnit? (a b c d : UInt8) : Option Nat := do
  return 4096 * (← hexValue? a) + 256 * (← hexValue? b) + 16 * (← hexValue? c) + (← hexValue? d)

/-- The first half of a surrogate pair. -/
def isLeading (n : Nat) : Bool := 0xD800 ≤ n && n ≤ 0xDBFF

/-- The second half of a surrogate pair. -/
def isTrailing (n : Nat) : Bool := 0xDC00 ≤ n && n ≤ 0xDFFF

/-- The code point that a surrogate pair stands for. -/
def pairValue (leading trailing : Nat) : Nat :=
  0x10000 + (leading - 0xD800) * 0x400 + (trailing - 0xDC00)

/-- The byte that a backslash and one more byte stand for. -/
def shortEscape? (b : UInt8) : Option UInt8 :=
  if b = quote then some quote
  else if b = backslash then some backslash
  else if b = slash then some slash
  else if b = ofChar 'b' then some 8
  else if b = ofChar 'f' then some formFeed
  else if b = ofChar 'n' then some lineFeed
  else if b = ofChar 'r' then some carriageReturn
  else if b = ofChar 't' then some tab
  else none

/-- The bytes up to the closing quote, unescaped, in front of the reversed bytes `seen`. -/
def unescape (seen : Bytes) : Reader Bytes
  | [] => .error .endInText
  | b :: s =>
    if b = quote then .ok (seen.reverse, s)
    else if b = backslash then
      match s with
      | [] => .error .endInText
      | e :: s =>
        if e = ofChar 'u' then
          match s with
          | a :: b :: c :: d :: s =>
            match hexUnit? a b c d with
            | none => .error .invalidEscape
            | some n =>
              if isTrailing n then .error .loneSurrogate
              else if isLeading n then
                match s with
                | [] => .error .endInText
                | e :: s =>
                  if e ≠ backslash then .error .unfinishedSurrogate
                  else match s with
                    | [] => .error .endInText
                    | u :: s =>
                      if u ≠ ofChar 'u' then .error .unfinishedSurrogate
                      else match s with
                        | a :: b :: c :: d :: s =>
                          match hexUnit? a b c d with
                          | none => .error .invalidEscape
                          | some m =>
                            if isTrailing m then
                              unescape ((Utf8.encodeCodePoint (pairValue n m)).reverse ++ seen) s
                            else .error .loneSurrogate
                        | _ => .error .endInText
              else unescape ((Utf8.encodeCodePoint n).reverse ++ seen) s
          | _ => .error .endInText
        else match shortEscape? e with
          | some b => unescape (b :: seen) s
          | none => .error .invalidEscape
    else if b < space then .error .controlCharacter
    else unescape (b :: seen) s

/-- A string that is kept. -/
def read : Reader String := fun s =>
  match unescape [] s with
  | .error e => .error e
  | .ok (bytes, rest) =>
    match Utf8.decode? bytes with
    | some text => .ok (text, rest)
    | none => .error .invalidCodePoint

/-- A string that is passed over. -/
def skip : Bytes → Except Fault Bytes
  | [] => .error .endInText
  | b :: s =>
    if b = quote then .ok s
    else if b = backslash then
      match s with
      | [] => .error .endInText
      | e :: s =>
        if e = ofChar 'u' then
          match s with
          | a :: b :: c :: d :: s =>
            match hexUnit? a b c d with
            | none => .error .invalidEscape
            | some _ => skip s
          | _ => .error .endInText
        else match shortEscape? e with
          | some _ => skip s
          | none => .error .invalidEscape
    else if b < space then .error .controlCharacter
    else skip s

/-- How one byte of a text is written: the quote, the backslash and control characters are escaped,
the latter by a short escape where there is one. -/
def escape (b : UInt8) : Bytes :=
  if b = quote then [backslash, quote]
  else if b = backslash then [backslash, backslash]
  else if b = 8 then [backslash, ofChar 'b']
  else if b = formFeed then [backslash, ofChar 'f']
  else if b = lineFeed then [backslash, ofChar 'n']
  else if b = carriageReturn then [backslash, ofChar 'r']
  else if b = tab then [backslash, ofChar 't']
  else if b < space then
    [backslash, ofChar 'u', zero, zero, hexDigit (b.toNat / 16), hexDigit (b.toNat % 16)]
  else [b]

def write (s : String) : Bytes := quote :: (Utf8.encode s).flatMap escape ++ [quote]

end Mailroom.Json.Text
