import Mailroom.Bytes

/-!
# Base64

Bytes as text over an alphabet of 64 symbols: three bytes make four symbols, and a last group of one
or two bytes is padded to four with equals signs. Only what encoding produces is decoded: the
padding is required and the bits that carry nothing have to be zero.
-/

namespace Mailroom.Base64

/-- The symbol of a number below 64. -/
def symbol (n : Nat) : UInt8 :=
  if n < 26 then UInt8.ofNat (65 + n)
  else if n < 52 then UInt8.ofNat (71 + n)
  else if n < 62 then UInt8.ofNat (n - 4)
  else if n = 62 then Ascii.plus
  else Ascii.slash

/-- The number a symbol stands for. -/
def value? (b : UInt8) : Option Nat :=
  if 65 ≤ b && b ≤ 90 then some (b.toNat - 65)
  else if 97 ≤ b && b ≤ 122 then some (b.toNat - 71)
  else if 48 ≤ b && b ≤ 57 then some (b.toNat + 4)
  else if b = Ascii.plus then some 62
  else if b = Ascii.slash then some 63
  else none

def encode : Bytes → Bytes
  | [] => []
  | [a] => [symbol (a.toNat / 4), symbol (a.toNat % 4 * 16), Ascii.equals, Ascii.equals]
  | [a, b] =>
    [symbol (a.toNat / 4), symbol (a.toNat % 4 * 16 + b.toNat / 16), symbol (b.toNat % 16 * 4),
      Ascii.equals]
  | a :: b :: c :: r =>
    symbol (a.toNat / 4) :: symbol (a.toNat % 4 * 16 + b.toNat / 16) ::
      symbol (b.toNat % 16 * 4 + c.toNat / 64) :: symbol (c.toNat % 64) :: encode r

/-- Why a text is not base64. Offsets count bytes from the start. -/
inductive Fault where
  | invalidSymbol (offset : Nat) (symbol : UInt8)
  | invalidLength (length : Nat)
  /-- Bits that carry nothing are not zero. -/
  | invalidLastSymbol (offset : Nat) (symbol : UInt8)
  | invalidPadding
  deriving DecidableEq

def Fault.message : Fault → String
  | .invalidSymbol offset b =>
    "Invalid symbol " ++ toString b.toNat ++ ", offset " ++ toString offset ++ "."
  | .invalidLength length => "Invalid input length: " ++ toString length
  | .invalidLastSymbol offset b =>
    "Invalid last symbol " ++ toString b.toNat ++ ", offset " ++ toString offset ++ "."
  | .invalidPadding => "Invalid padding"

def value (offset : Nat) (b : UInt8) : Except Fault Nat :=
  match value? b with
  | some n => .ok n
  | none => .error (.invalidSymbol offset b)

/-- The first, second and third byte of a group, from the numbers of its symbols. -/
def firstByte (x y : Nat) : UInt8 := UInt8.ofNat (x * 4 + y / 16)
def secondByte (y z : Nat) : UInt8 := UInt8.ofNat (y % 16 * 16 + z / 4)
def thirdByte (z w : Nat) : UInt8 := UInt8.ofNat (z % 4 * 64 + w)

/-- The last group, the only one that may be padded or short. -/
def decodeLast (offset : Nat) : Bytes → Except Fault Bytes
  | [] => .ok []
  | [a] => do
    let _ ← value offset a
    .error (.invalidLength (offset + 1))
  | [a, b] => do
    let _ ← value offset a
    let _ ← value (offset + 1) b
    .error .invalidPadding
  | [a, b, c] => do
    let _ ← value offset a
    let _ ← value (offset + 1) b
    if c ≠ Ascii.equals then
      let _ ← value (offset + 2) c
    .error .invalidPadding
  | a :: b :: c :: d :: _ => do
    let x ← value offset a
    let y ← value (offset + 1) b
    if c = Ascii.equals then
      if d ≠ Ascii.equals then .error (.invalidSymbol (offset + 2) c)
      else if y % 16 ≠ 0 then .error (.invalidLastSymbol (offset + 1) b)
      else .ok [firstByte x y]
    else
      let z ← value (offset + 2) c
      if d = Ascii.equals then
        if z % 4 ≠ 0 then .error (.invalidLastSymbol (offset + 2) c)
        else .ok [firstByte x y, secondByte y z]
      else
        let w ← value (offset + 3) d
        .ok [firstByte x y, secondByte y z, thirdByte z w]

/-- All groups; `offset` is where the first one starts. -/
def decodeGroups (offset : Nat) : Bytes → Except Fault Bytes
  | a :: b :: c :: d :: e :: r => do
    let x ← value offset a
    let y ← value (offset + 1) b
    let z ← value (offset + 2) c
    let w ← value (offset + 3) d
    let rest ← decodeGroups (offset + 4) (e :: r)
    .ok (firstByte x y :: secondByte y z :: thirdByte z w :: rest)
  | last => decodeLast offset last

/-- A stray byte after whole groups that is no symbol at all. It is reported before anything else.
-/
def strayEnd? (s : Bytes) : Option UInt8 :=
  match s.getLast? with
  | some b =>
    if s.length % 4 = 1 && b ≠ Ascii.equals && (value? b).isNone then some b else none
  | none => none

def decode (s : Bytes) : Except Fault Bytes :=
  match strayEnd? s with
  | some b => .error (.invalidSymbol (s.length - 1) b)
  | none => decodeGroups 0 s

end Mailroom.Base64
