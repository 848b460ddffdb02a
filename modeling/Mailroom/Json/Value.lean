import Mailroom.Json.Skip

/-!
# Reading JSON values of a known kind

A reader knows what it expects. Where a value of another kind stands instead, the fault names that
value, for which it has to be read as far as naming it takes: a fault inside it comes first.
-/

namespace Mailroom.Json

open Ascii

/-- The fault of the value at the front when `expected` was due. White space is already gone. -/
def wrongType (expected : String) (s : Bytes) : Fault :=
  match s with
  | [] => .endInValue
  | b :: r =>
    if b = ofChar 'n' then named (readWord ullWord r) .null
    else if b = ofChar 't' then named (readWord rueWord r) (.flag true)
    else if b = ofChar 'f' then named (readWord alseWord r) (.flag false)
    else if b = minus || isDigit b then
      match Number.read s with
      | .error e => e
      | .ok (n, _) => .wrongType n.found expected
    else if b = quote then
      match Text.read r with
      | .error e => e
      | .ok (text, _) => .wrongType (.text text) expected
    else if b = openBracket then .wrongType .list expected
    else if b = openBrace then .wrongType .object expected
    else .expectedValue
where
  named (word : Except Fault Bytes) (found : Found) : Fault :=
    match word with
    | .error e => e
    | .ok _ => .wrongType found expected

/-- A string where `expected` is due. -/
def readTextAs (expected : String) : Reader String := fun s =>
  match skipSpace s with
  | [] => .error .endInValue
  | b :: r => if b = quote then Text.read r else .error (wrongType expected (b :: r))

def readText : Reader String := readTextAs "a string"

/-- An integer from zero to `2 ^ 64 - 1`. -/
def readNatural : Reader UInt64 := fun s =>
  match skipSpace s with
  | [] => .error .endInValue
  | b :: r =>
    if b = minus || isDigit b then
      match Number.read (b :: r) with
      | .error e => .error e
      | .ok (.natural n, r) => .ok (UInt64.ofNat n, r)
      | .ok (.negative n, _) => .error (.wrongValue (.negative n) "u64")
      | .ok (.float bits, _) => .error (.wrongType (.float bits) "u64")
    else .error (wrongType "u64" (b :: r))

def readFlag : Reader Bool := fun s =>
  match skipSpace s with
  | [] => .error .endInValue
  | b :: r =>
    if b = ofChar 't' then (readWord rueWord r).map (true, ·)
    else if b = ofChar 'f' then (readWord alseWord r).map (false, ·)
    else .error (wrongType "a boolean" (b :: r))

def readNull : Reader Unit := fun s =>
  match skipSpace s with
  | [] => .error .endInValue
  | b :: r =>
    if b = ofChar 'n' then (readWord ullWord r).map ((), ·)
    else .error (wrongType "unit" (b :: r))

/-- Null for nothing, or a value. -/
def readNullable {α : Type} (read : Reader α) : Reader (Option α) := fun s =>
  match skipSpace s with
  | [] => (read []).map fun (a, r) => (some a, r)
  | b :: r =>
    if b = ofChar 'n' then (readWord ullWord r).map (none, ·)
    else (read (b :: r)).map fun (a, r) => (some a, r)

end Mailroom.Json
