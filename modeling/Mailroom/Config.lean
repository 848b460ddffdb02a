import Mailroom.Address
import Mailroom.Frame
import Mailroom.Text.Blank
import Mailroom.Text.Quoted

/-!
# Configuration

What a relay is started with is read from named variables. One that is not set has a default; one
that is set and cannot be used is an error, and the first such error is reported. White space around
numbers does not count.
-/

namespace Mailroom

/-- The limits that hold for every connection. -/
structure Limits where
  /-- Frames that can wait to be written to one client. -/
  outboundCapacity : Nat
  /-- How long a frame waits for room before it is given up. -/
  sendTimeoutMs : Nat
  maxFrameSize : Nat
  deriving DecidableEq

def Limits.default : Limits := ⟨256, 5000, Frame.defaultLimit⟩

/-- Why a text is not a number of the range that is due. -/
inductive NumeralError where
  | empty
  | invalidDigit
  | tooLarge
  deriving DecidableEq

def NumeralError.message : NumeralError → String
  | .empty => "cannot parse integer from empty string"
  | .invalidDigit => "invalid digit found in string"
  | .tooLarge => "number too large to fit in target type"

namespace Numeral

/-- Goes on with a number below `bound` digit by digit. -/
def readDigits (bound n : Nat) : List Char → Except NumeralError Nat
  | [] => .ok n
  | c :: s =>
    if !c.isDigit then .error .invalidDigit
    else
      let n := n * 10 + (c.toNat - 48)
      if n < bound then readDigits bound n s else .error .tooLarge

/-- A decimal number below `bound`; a plus may stand in front of it. -/
def parse (bound : Nat) : List Char → Except NumeralError Nat
  | [] => .error .empty
  | ['+'] => .error .invalidDigit
  | c :: s => if c = '+' then readDigits bound 0 s else readDigits bound 0 (c :: s)

end Numeral

structure Config where
  address : Address
  limits : Limits
  deriving DecidableEq

namespace Config

inductive Error where
  | invalidValue (key value : String) (reason : NumeralError)
  | invalidAddress (host : String) (port : Nat)
  | capacityTooSmall
  | frameLimitTooSmall
  deriving DecidableEq

/-- The least frame limit: a frame has to be able to carry a registration. -/
def minFrameSize : Nat := 1024

def hostKey : String := "COURIER_HOST"
def portKey : String := "COURIER_PORT"
def capacityKey : String := "COURIER_OUTBOUND_CAPACITY"
def timeoutKey : String := "COURIER_SEND_TIMEOUT_MS"
def frameLimitKey : String := "COURIER_MAX_FRAME_BYTES"

/-- The variables that are looked at. -/
def keys : List String := [hostKey, portKey, capacityKey, timeoutKey, frameLimitKey]

def Error.message : Error → String
  | .invalidValue key value reason =>
    key ++ " has invalid value " ++ Quoted.encode value ++ ": " ++ reason.message
  | .invalidAddress host port =>
    "invalid listen address " ++ host ++ ":" ++ toString port ++ ": invalid socket address syntax"
  | .capacityTooSmall => capacityKey ++ " must be at least 1"
  | .frameLimitTooSmall => frameLimitKey ++ " must be at least " ++ toString minFrameSize

def defaultHost : String := "0.0.0.0"
def defaultPort : Nat := 8080

/-- The number a variable is set to, below `bound`. -/
def number (lookup : String → Option String) (key : String) (bound default : Nat) :
    Except Error Nat :=
  match lookup key with
  | none => .ok default
  | some value => (Numeral.parse bound (Blank.trim value.toList)).mapError (.invalidValue key value)

/-- The address of a host and a port. -/
def readAddress (host : String) (port : Nat) : Except Error Address :=
  match Address.parse? (host ++ ":" ++ toString port) with
  | some a => .ok a
  | none => .error (.invalidAddress host port)

def load (lookup : String → Option String) : Except Error Config := do
  let port ← number lookup portKey UInt16.size defaultPort
  let address ← readAddress ((lookup hostKey).getD defaultHost) port
  let capacity ← number lookup capacityKey UInt64.size Limits.default.outboundCapacity
  if capacity = 0 then .error .capacityTooSmall
  let timeout ← number lookup timeoutKey UInt64.size Limits.default.sendTimeoutMs
  let frameLimit ← number lookup frameLimitKey UInt64.size Limits.default.maxFrameSize
  if frameLimit < minFrameSize then .error .frameLimitTooSmall
  return ⟨address, ⟨capacity, timeout, frameLimit⟩⟩

end Config

end Mailroom
