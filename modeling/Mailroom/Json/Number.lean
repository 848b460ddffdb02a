import Mailroom.Json.Fault

/-!
# JSON numbers

A number is first read as a literal, its digits kept as they are written, and then given a value. A
literal without fraction and exponent is an integer as long as it fits into 64 bits; every other
literal is a floating point number.

The floating point value is what one multiplication or division by a power of ten makes of the
leading digits that fit into 64 bits. It can differ from the nearest number in its last place, and
nothing but messages shows it.
-/

namespace Mailroom.Json

open Ascii

/-- A number as it is written; digits are values below ten. -/
structure Literal where
  negative : Bool
  whole : List Nat
  /-- The digits after a point. -/
  fraction : Option (List Nat)
  /-- Whether an exponent is negative, and its digits. -/
  exponent : Option (Bool × List Nat)

namespace Literal

/-- The digits at the front, and the rest. -/
def digits (s : Bytes) : List Nat × Bytes :=
  ((s.takeWhile isDigit).map digitValue, s.dropWhile isDigit)

/-- Digits where at least one is due. The fault is `atEnd` when nothing is left. -/
def someDigits (atEnd : Fault) : Reader (List Nat)
  | [] => .error atEnd
  | b :: s => if isDigit b then .ok (digits (b :: s)) else .error .invalidNumber

/-- The digits before the point: a zero stands alone. -/
def readWhole (atEnd : Fault) (s : Bytes) : Except Fault (List Nat × Bytes) := do
  let (ds, rest) ← someDigits atEnd s
  match ds with
  | 0 :: _ :: _ => .error .invalidNumber
  | _ => .ok (ds, rest)

def readFraction (atEnd : Fault) : Reader (Option (List Nat))
  | b :: s =>
    if b = dot then do
      let (ds, rest) ← someDigits atEnd s
      .ok (some ds, rest)
    else .ok (none, b :: s)
  | [] => .ok (none, [])

/-- The sign of an exponent; none is a plus. -/
def exponentSign : Bytes → Bool × Bytes
  | b :: s => if b = minus then (true, s) else if b = plus then (false, s) else (false, b :: s)
  | [] => (false, [])

def readExponent (atEnd : Fault) : Reader (Option (Bool × List Nat))
  | b :: s =>
    if b = ofChar 'e' || b = ofChar 'E' then do
      let (negative, s) := exponentSign s
      let (ds, rest) ← someDigits atEnd s
      .ok (some (negative, ds), rest)
    else .ok (none, b :: s)
  | [] => .ok (none, [])

/-- A literal whose minus, if it has one, is already taken. -/
def readUnsigned (atEnd : Fault) (negative : Bool) (s : Bytes) :
    Except Fault (Literal × Bytes) := do
  let (whole, s) ← readWhole atEnd s
  let (fraction, s) ← readFraction atEnd s
  let (exponent, s) ← readExponent atEnd s
  .ok (⟨negative, whole, fraction, exponent⟩, s)

/-- A literal at the front. The fault is `atEnd` when the bytes end where a digit is due. -/
def read (atEnd : Fault) : Reader Literal
  | b :: s => if b = minus then readUnsigned atEnd true s else readUnsigned atEnd false (b :: s)
  | [] => .error atEnd

/-- Goes on with a decimal number as long as it stays below `2 ^ 64`. Gives the number reached and
how many of the digits it took. -/
def accumulate (n : Nat) : List Nat → Nat × Nat
  | [] => (n, 0)
  | d :: ds =>
    if n * 10 + d < UInt64.size then
      let (m, taken) := accumulate (n * 10 + d) ds
      (m, taken + 1)
    else (n, 0)

/-- The plain value of a list of digits. -/
def value (ds : List Nat) : Nat := ds.foldl (fun n d => n * 10 + d) 0

end Literal

/-- The value of a number. -/
inductive Number where
  | natural (n : Nat)
  /-- An integer below zero, by its distance from zero. -/
  | negative (n : Nat)
  | float (bits : UInt64)
  deriving DecidableEq

namespace Number

def found : Number → Found
  | .natural n => .natural n
  | .negative n => .negative n
  | .float bits => .float bits

/-- The power `10 ^ n`, to the nearest. -/
def power (n : Nat) : Float := Float.ofScientific 1 false n

/-- The number `significand * 10 ^ exponent`, or nothing when it is too large. -/
def scale? (significand : Nat) (exponent : Int) : Option Float :=
  let f := (UInt64.ofNat significand).toFloat
  if significand = 0 then some f
  else if 308 < exponent then none
  else if 0 ≤ exponent then
    let g := f * power exponent.toNat
    if g.isInf then none else some g
  else if -308 ≤ exponent then some (f / power (-exponent).toNat)
  else if -616 ≤ exponent then some (f / power 308 / power (-exponent - 308).toNat)
  else some 0.0

/-- The exponent that is written, or nothing when it is beyond 31 bits. -/
def writtenExponent? : Option (Bool × List Nat) → Option Int
  | none => some 0
  | some (downward, ds) =>
    let n := Literal.value ds
    if n < 0x80000000 then some (if downward then -(n : Int) else n) else none

def float? (l : Literal) : Option Float :=
  let (whole, taken) := Literal.accumulate 0 l.whole
  let (significand, places) := Literal.accumulate whole (l.fraction.getD [])
  let shift : Int := (l.whole.length - taken : Nat) - (places : Int)
  match writtenExponent? l.exponent, l.exponent with
  | some e, _ => scale? significand (shift + e)
  | none, some (false, _) => if significand = 0 then some 0.0 else none
  | none, _ => some 0.0

def ofLiteral (l : Literal) : Except Fault Number :=
  let n := Literal.value l.whole
  let bits (f : Float) : Number := .float (if l.negative then (-f).toBits else f.toBits)
  if l.fraction.isNone && l.exponent.isNone && n < UInt64.size then
    if !l.negative then .ok (.natural n)
    else if 0 < n && n ≤ 0x8000000000000000 then .ok (.negative n)
    else .ok (bits (UInt64.ofNat n).toFloat)
  else match float? l with
    | some f => .ok (bits f)
    | none => .error .numberOutOfRange

/-- A number that is kept. -/
def read : Reader Number := fun s => do
  let (l, rest) ← Literal.read .endInValue s
  .ok (← ofLiteral l, rest)

/-- A number that is passed over: only its shape counts. -/
def skip (s : Bytes) : Except Fault Bytes := do
  let (_, rest) ← Literal.read .invalidNumber s
  .ok rest

end Number

end Mailroom.Json
