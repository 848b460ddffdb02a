/-!
# Socket addresses

An IP address with a port. Version 4 is four decimal numbers between dots; version 6 is eight
hexadecimal groups between colons, in brackets, where `::` stands for groups of zeros, the last two
groups can be written as a version 4 address, and a decimal scope can follow after a percent sign.

Reading answers with nothing unless the whole text is an address. Writing uses the shortest
customary form.
-/

namespace Mailroom

/-- The parts are numbers below 256, groups of four hexadecimal digits, and a number of 32 bits. -/
inductive Address where
  | v4 (a b c d : Nat) (port : Nat)
  | v6 (groups : List Nat) (scope : Nat) (port : Nat)
  deriving DecidableEq

namespace Address

/-- Takes something off the front of a text, if it is there. -/
abbrev Reader (α : Type) := List Char → Option (α × List Char)

def digitValue? (radix : Nat) (c : Char) : Option Nat :=
  let n :=
    if '0' ≤ c && c ≤ '9' then c.toNat - 48
    else if 'a' ≤ c && c ≤ 'z' then c.toNat - 87
    else if 'A' ≤ c && c ≤ 'Z' then c.toNat - 55
    else radix
  if n < radix then some n else none

/-- Which spellings of a number are allowed. -/
structure NumberFormat where
  radix : Nat
  maxDigits : Option Nat
  zerosInFront : Bool
  /-- The number has to be below this. -/
  bound : Nat

def readNumber (f : NumberFormat) : Reader Nat := fun s =>
  let digits := s.takeWhile fun c => (digitValue? f.radix c).isSome
  let n := digits.foldl (fun n c => n * f.radix + (digitValue? f.radix c).getD 0) 0
  let tooLong := match f.maxDigits with
    | some most => most < digits.length
    | none => false
  if digits.isEmpty || tooLong || (!f.zerosInFront && 1 < digits.length && digits.head? = some '0')
      || f.bound ≤ n then none
  else some (n, s.drop digits.length)

def readChar (c : Char) : Reader Unit
  | d :: s => if d = c then some ((), s) else none
  | [] => none

def octet : NumberFormat := ⟨10, some 3, false, UInt8.size⟩
def group : NumberFormat := ⟨16, some 4, true, UInt16.size⟩
def scopeNumber : NumberFormat := ⟨10, none, true, UInt32.size⟩
def portNumber : NumberFormat := ⟨10, none, true, UInt16.size⟩

/-- A version 4 address. -/
def readV4 : Reader (Nat × Nat × Nat × Nat) := fun s => do
  let (a, s) ← readNumber octet s
  let ((), s) ← readChar '.' s
  let (b, s) ← readNumber octet s
  let ((), s) ← readChar '.' s
  let (c, s) ← readNumber octet s
  let ((), s) ← readChar '.' s
  let (d, s) ← readNumber octet s
  return ((a, b, c, d), s)

/-- An item of a sequence between colons. -/
def readItem {α : Type} (first : Bool) (item : Reader α) : Reader α := fun s =>
  if first then item s
  else do
    let ((), s) ← readChar ':' s
    item s

/-- As many groups as there are, at most `room`. The last two can be a version 4 address; the flag
tells whether they are. -/
def readGroups : (room : Nat) → (first : Bool) → List Char → List Nat × Bool × List Char
  | 0, _, s => ([], false, s)
  | room + 1, first, s =>
    match if 0 < room then readItem first readV4 s else none with
    | some ((a, b, c, d), s) => ([256 * a + b, 256 * c + d], true, s)
    | none =>
      match readItem first (readNumber group) s with
      | some (g, s) =>
        let (gs, endsInV4, s) := readGroups room false s
        (g :: gs, endsInV4, s)
      | none => ([], false, s)

/-- The eight groups of a version 6 address. -/
def readV6 : Reader (List Nat) := fun s =>
  let (head, endsInV4, s) := readGroups 8 true s
  if head.length = 8 then some (head, s)
  else if endsInV4 then none
  else do
    let ((), s) ← readChar ':' s
    let ((), s) ← readChar ':' s
    let (tail, _, s) := readGroups (7 - head.length) true s
    return (head ++ List.replicate (8 - head.length - tail.length) 0 ++ tail, s)

def readScope (s : List Char) : Nat × List Char :=
  let scope? : Option (Nat × List Char) := do
    let ((), s) ← readChar '%' s
    readNumber scopeNumber s
  scope?.getD (0, s)

def readPort : Reader Nat := fun s => do
  let ((), s) ← readChar ':' s
  readNumber portNumber s

def readSocketV4 : Reader Address := fun s => do
  let ((a, b, c, d), s) ← readV4 s
  let (port, s) ← readPort s
  return (.v4 a b c d port, s)

def readSocketV6 : Reader Address := fun s => do
  let ((), s) ← readChar '[' s
  let (groups, s) ← readV6 s
  let (scope, s) := readScope s
  let ((), s) ← readChar ']' s
  let (port, s) ← readPort s
  return (.v6 groups scope port, s)

/-- The address a text is. -/
def parse? (text : String) : Option Address :=
  let s := text.toList
  match (readSocketV4 s).or (readSocketV6 s) with
  | some (address, []) => some address
  | _ => none

/-- The first of the longest runs of zeros in a list: where it starts and how long it is. -/
def longestZeros (groups : List Nat) : Nat × Nat :=
  let runs := (List.range groups.length).map fun i =>
    (i, ((groups.drop i).takeWhile (· = 0)).length)
  runs.foldl (fun best run => if best.2 < run.2 then run else best) (0, 0)

def renderV4 (a b c d : Nat) : String :=
  toString a ++ "." ++ toString b ++ "." ++ toString c ++ "." ++ toString d

def renderGroups (groups : List Nat) : String :=
  ":".intercalate (groups.map fun g => String.ofList (Nat.toDigits 16 g))

def renderV6 (groups : List Nat) : String :=
  match groups with
  | [0, 0, 0, 0, 0, 0xFFFF, x, y] =>
    "::ffff:" ++ renderV4 (x / 256) (x % 256) (y / 256) (y % 256)
  | _ =>
    let (start, length) := longestZeros groups
    if 1 < length then
      renderGroups (groups.take start) ++ "::" ++ renderGroups (groups.drop (start + length))
    else renderGroups groups

def render : Address → String
  | .v4 a b c d port => renderV4 a b c d ++ ":" ++ toString port
  | .v6 groups scope port =>
    let scopeText := if scope = 0 then "" else "%" ++ toString scope
    "[" ++ renderV6 groups ++ scopeText ++ "]:" ++ toString port

def port : Address → Nat
  | .v4 _ _ _ _ port => port
  | .v6 _ _ port => port

end Address

end Mailroom
