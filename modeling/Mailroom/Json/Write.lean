import Mailroom.Json.Text

/-!
# Writing JSON

Values are written without white space. Strings are written by `Text.write`.
-/

namespace Mailroom.Json

open Ascii

/-- A number from zero up, in decimal. -/
def writeNatural (n : Nat) : Bytes := (Nat.toDigits 10 n).map ofChar

def writeFlag (b : Bool) : Bytes := Bytes.ofAscii (if b then "true" else "false")

/-- An object, from its keys and written values. -/
def writeObject (members : List (String × Bytes)) : Bytes :=
  let written := members.map fun (key, value) => Text.write key ++ [colon] ++ value
  [openBrace] ++ [comma].intercalate written ++ [closeBrace]

end Mailroom.Json
