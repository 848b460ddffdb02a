import Mailroom.Proofs.Address.Hosts
import Mailroom.Proofs.Config.Numbers
import Mailroom.Proofs.Results

/-!
# Variables

Every part of a configuration comes from one variable. The address is read from the host and the
port together, yet the one cannot get into the other: what is a host is known without the port, and
the port of the address is the configured one.
-/

namespace Mailroom.Config

open Address (Host HostText)
open Numeral (Written)

/-- The variables in the order in which they are checked. -/
inductive Variable where
  | port
  | host
  | capacity
  | timeout
  | frameLimit
  deriving DecidableEq

/-- What a numeric variable is when it is not set, what it is at least, and what it is below. -/
structure Range where
  default : Nat
  least : Nat
  bound : Nat
  enough : least ≤ default
  small : default < bound

/-- The number of a variable, set or not. -/
def Range.Reads (r : Range) : Option String → Nat → Prop
  | none, n => n = r.default
  | some value, n => Written r.bound value.toList n

def Range.Gives (r : Range) (value? : Option String) (n : Nat) : Prop :=
  r.Reads value? n ∧ r.least ≤ n

def portRange : Range := ⟨defaultPort, 0, UInt16.size, by decide, by decide⟩

def capacityRange : Range :=
  ⟨Limits.default.outboundCapacity, 1, UInt64.size, by decide, by decide⟩

def timeoutRange : Range := ⟨Limits.default.sendTimeoutMs, 0, UInt64.size, by decide, by decide⟩

def frameLimitRange : Range :=
  ⟨Limits.default.maxFrameSize, minFrameSize, UInt64.size, by decide, by decide⟩

namespace Variable

def order : List Variable := [port, host, capacity, timeout, frameLimit]

def key : Variable → String
  | port => portKey
  | host => hostKey
  | capacity => capacityKey
  | timeout => timeoutKey
  | frameLimit => frameLimitKey

/-- What a variable decides: the host is one, the others are numbers. -/
def Value : Variable → Type
  | host => Host
  | port | capacity | timeout | frameLimit => Nat

/-- The part of a configuration that a variable decides. -/
def of : (v : Variable) → Config → v.Value
  | port, c => c.address.port
  | host, c => c.address.host
  | capacity, c => c.limits.outboundCapacity
  | timeout, c => c.limits.sendTimeoutMs
  | frameLimit, c => c.limits.maxFrameSize

/-- What is decided by the text that a variable is set to, or by its not being set. -/
def Gives : (v : Variable) → Option String → v.Value → Prop
  | port, value?, n => portRange.Gives value? n
  | host, value?, h => HostText (value?.getD defaultHost).toList h
  | capacity, value?, n => capacityRange.Gives value? n
  | timeout, value?, n => timeoutRange.Gives value? n
  | frameLimit, value?, n => frameLimitRange.Gives value? n

/-- A variable can be used if it decides something. -/
def Accepts (v : Variable) (value? : Option String) : Prop :=
  ∃ x, v.Gives value? x

end Variable

/-- An error is about a variable: it names it or says what is wrong with its value. -/
inductive Blames (lookup : String → Option String) : Variable → Error → Prop where
  | value {v : Variable} {value : String} {reason : NumeralError} : v ≠ .host →
      lookup v.key = some value → Blames lookup v (.invalidValue v.key value reason)
  | host {port : Nat} : portRange.Gives (lookup portKey) port →
      Blames lookup .host (.invalidAddress ((lookup hostKey).getD defaultHost) port)
  | capacity : Blames lookup .capacity .capacityTooSmall
  | frameLimit : Blames lookup .frameLimit .frameLimitTooSmall

/-- An error is about the first variable that cannot be used. -/
inductive FirstFault (lookup : String → Option String) (e : Error) : Prop where
  | at (before : List Variable) {after : List Variable} {v : Variable} :
      Variable.order = before ++ v :: after →
      (∀ w ∈ before, w.Accepts (lookup w.key)) → ¬ v.Accepts (lookup v.key) → Blames lookup v e →
      FirstFault lookup e

variable {lookup lookup' : String → Option String} {key : String} {r : Range} {n m : Nat}
  {e : Error} {c c' : Config}

theorem number_eq_ok : number lookup key r.bound r.default = .ok n ↔ r.Reads (lookup key) n := by
  have positive : 0 < r.bound := Nat.zero_lt_of_lt r.small
  cases set : lookup key with
  | none => simp [number, set, Range.Reads, eq_comm]
  | some value =>
    rw [Range.Reads, ← Numeral.parse_trim_eq_ok positive, number, set]
    exact mapError_eq_ok

theorem number_eq_error (failed : number lookup key r.bound r.default = .error e) :
    (¬ ∃ n, r.Reads (lookup key) n) ∧
      ∃ value reason, lookup key = some value ∧ e = .invalidValue key value reason := by
  constructor
  · rintro ⟨n, reads⟩
    rw [← number_eq_ok, failed] at reads
    cases reads
  · cases set : lookup key with
    | none =>
      rw [number, set] at failed
      cases failed
    | some value =>
      cases parsed : Numeral.parse r.bound (Blank.trim value.toList) with
      | ok n =>
        simp only [number, set, parsed] at failed
        cases failed
      | error reason =>
        simp only [number, set, parsed] at failed
        cases failed
        exact ⟨value, reason, rfl, rfl⟩

theorem Range.Reads.small {value? : Option String} (reads : r.Reads value? n) : n < r.bound := by
  cases value? with
  | none => exact reads ▸ r.small
  | some value => exact Written.small reads

theorem Range.Reads.unique {value? : Option String} (reads : r.Reads value? n)
    (reads' : r.Reads value? m) : n = m := by
  have loaded : number (fun _ => value?) "" r.bound r.default = .ok n := number_eq_ok.mpr reads
  have loaded' : number (fun _ => value?) "" r.bound r.default = .ok m := number_eq_ok.mpr reads'
  exact Except.ok.inj (loaded.symm.trans loaded')

theorem readAddress_eq_ok {host : String} {port : Nat} {a : Address} (small : port < UInt16.size) :
    readAddress host port = .ok a ↔ ∃ h, HostText host.toList h ∧ a = h.withPort port := by
  rw [← Address.parse?_paste small, readAddress]
  cases Address.parse? (host ++ ":" ++ toString port) <;> simp

theorem readAddress_eq_error {host : String} {port : Nat} (small : port < UInt16.size)
    (failed : readAddress host port = .error e) :
    (¬ ∃ h, HostText host.toList h) ∧ e = .invalidAddress host port := by
  constructor
  · rintro ⟨h, isHost⟩
    rw [(readAddress_eq_ok small).mpr ⟨h, isHost, rfl⟩] at failed
    cases failed
  · rw [readAddress] at failed
    split at failed
    · cases failed
    · cases failed
      rfl

/-- The relay is loaded by the readings of the variables, one after the other. -/
theorem load_eq (lookup : String → Option String) :
    load lookup = (do
      let port ← number lookup portKey portRange.bound portRange.default
      let address ← readAddress ((lookup hostKey).getD defaultHost) port
      let capacity ← number lookup capacityKey capacityRange.bound capacityRange.default
      if capacity < capacityRange.least then .error .capacityTooSmall else
        let timeout ← number lookup timeoutKey timeoutRange.bound timeoutRange.default
        let frameLimit ← number lookup frameLimitKey frameLimitRange.bound frameLimitRange.default
        if frameLimit < frameLimitRange.least then .error .frameLimitTooSmall else
          return ⟨address, ⟨capacity, timeout, frameLimit⟩⟩) := by
  simp only [load, Nat.lt_one_iff, capacityRange]
  rfl

/-- What is too small is an error. -/
theorem unless_lt_eq_ok {α : Type} {least : Nat} {x : Except Error α} {a : α} :
    (if n < least then .error e else x) = .ok a ↔ least ≤ n ∧ x = .ok a := by
  by_cases small : n < least
  · simp [small]
  · simp [small, Nat.le_of_not_lt small]

theorem unless_lt_eq_error {α : Type} {least : Nat} {x : Except Error α} {e' : Error} :
    (if n < least then .error e else x) = .error e' ↔
      (n < least ∧ e' = e) ∨ (least ≤ n ∧ x = .error e') := by
  by_cases small : n < least
  · simp [small, eq_comm]
  · simp [small, Nat.le_of_not_lt small]

/-- A configuration is loaded if every variable gives the part that it decides. -/
theorem load_eq_ok :
    load lookup = .ok c ↔ ∀ v : Variable, v.Gives (lookup v.key) (v.of c) := by
  rw [load_eq]
  simp only [bind_eq_ok, number_eq_ok, unless_lt_eq_ok]
  constructor
  · rintro ⟨port, isPort, address, isAddress, capacity, isCapacity, room, timeout, isTimeout,
      frameLimit, isFrameLimit, enough, loaded⟩
    cases loaded
    obtain ⟨h, isHost, rfl⟩ := (readAddress_eq_ok isPort.small).mp isAddress
    intro v
    cases v with
    | port => exact ⟨by simpa [Variable.of, Variable.key] using isPort, Nat.zero_le _⟩
    | host => simpa [Variable.Gives, Variable.of, Variable.key] using isHost
    | capacity => exact ⟨isCapacity, room⟩
    | timeout => exact ⟨isTimeout, Nat.zero_le _⟩
    | frameLimit => exact ⟨isFrameLimit, enough⟩
  · intro gives
    obtain ⟨isPort, -⟩ := gives .port
    obtain ⟨isCapacity, room⟩ := gives .capacity
    obtain ⟨isTimeout, -⟩ := gives .timeout
    obtain ⟨isFrameLimit, enough⟩ := gives .frameLimit
    have isAddress := (readAddress_eq_ok isPort.small).mpr
      ⟨_, gives .host, (Address.withPort_host c.address).symm⟩
    exact ⟨_, isPort, _, isAddress, _, isCapacity, room, _, isTimeout, _, isFrameLimit, enough, rfl⟩

theorem Variable.Gives.unique {v : Variable} {value? : Option String} {x y : v.Value}
    (gives : v.Gives value? x) (gives' : v.Gives value? y) : x = y := by
  cases v with
  | host => exact Address.HostText.unique gives gives'
  | port | capacity | timeout | frameLimit => exact Range.Reads.unique gives.1 gives'.1

/-- There is a configuration of parts that are given one by one. -/
theorem exists_of_accepts (accepts : ∀ v : Variable, v.Accepts (lookup v.key)) :
    ∃ c : Config, ∀ v : Variable, v.Gives (lookup v.key) (v.of c) := by
  obtain ⟨port, isPort⟩ : ∃ n, portRange.Gives (lookup portKey) n := accepts .port
  obtain ⟨h, isHost⟩ : ∃ h, HostText ((lookup hostKey).getD defaultHost).toList h := accepts .host
  obtain ⟨capacity, isCapacity⟩ := accepts .capacity
  obtain ⟨timeout, isTimeout⟩ := accepts .timeout
  obtain ⟨frameLimit, isFrameLimit⟩ := accepts .frameLimit
  refine ⟨⟨h.withPort port, ⟨capacity, timeout, frameLimit⟩⟩, fun v => ?_⟩
  cases v with
  | port => simpa [Variable.Gives, Variable.of, Variable.key] using isPort
  | host => simpa [Variable.Gives, Variable.of, Variable.key] using isHost
  | capacity => exact isCapacity
  | timeout => exact isTimeout
  | frameLimit => exact isFrameLimit

theorem not_gives_of_lt {value? : Option String} (reads : r.Reads value? n) (small : n < r.least) :
    ¬ ∃ m, r.Gives value? m := by
  rintro ⟨m, reads', enough⟩
  rw [reads.unique reads'] at small
  exact Nat.not_lt_of_le enough small

/-- A numeric variable that cannot be read is at fault. -/
theorem FirstFault.unread {v : Variable} (before : List Variable) {after : List Variable}
    (place : Variable.order = before ++ v :: after)
    (earlier : ∀ w ∈ before, w.Accepts (lookup w.key)) (numeric : v ≠ .host)
    (range : v.Accepts (lookup v.key) → ∃ n, r.Gives (lookup v.key) n)
    (failed : number lookup v.key r.bound r.default = .error e) : FirstFault lookup e := by
  obtain ⟨nothing, value, reason, set, rfl⟩ := number_eq_error failed
  refine .at before place earlier (fun accepted => ?_) (.value numeric set)
  obtain ⟨n, reads, -⟩ := range accepted
  exact nothing ⟨n, reads⟩

theorem firstFault_of_load_eq_error (failed : load lookup = .error e) : FirstFault lookup e := by
  rw [load_eq] at failed
  -- One variable after the other is usable or at fault, as they are read.
  obtain failed | ⟨port, isPort, failed⟩ := bind_eq_error.mp failed
  · exact .unread [] rfl (by simp) (by decide) id failed
  rw [number_eq_ok] at isPort
  have portFits : Variable.port.Accepts (lookup Variable.port.key) :=
    ⟨port, isPort, Nat.zero_le _⟩
  obtain failed | ⟨address, isAddress, failed⟩ := bind_eq_error.mp failed
  · obtain ⟨faulty, rfl⟩ := readAddress_eq_error isPort.small failed
    exact .at [.port] rfl (by simp [portFits]) faulty (.host ⟨isPort, Nat.zero_le _⟩)
  obtain ⟨h, isHost, -⟩ := (readAddress_eq_ok isPort.small).mp isAddress
  have hostFits : Variable.host.Accepts (lookup Variable.host.key) := ⟨h, isHost⟩
  have before : ∀ w ∈ [Variable.port, .host], w.Accepts (lookup w.key) := by
    simp [portFits, hostFits]
  obtain failed | ⟨capacity, isCapacity, failed⟩ := bind_eq_error.mp failed
  · exact .unread [.port, .host] rfl before (by decide) id failed
  rw [number_eq_ok] at isCapacity
  obtain ⟨small, rfl⟩ | ⟨room, failed⟩ := unless_lt_eq_error.mp failed
  · exact .at [.port, .host] rfl before (not_gives_of_lt isCapacity small) .capacity
  have capacityFits : Variable.capacity.Accepts (lookup Variable.capacity.key) :=
    ⟨capacity, isCapacity, room⟩
  obtain failed | ⟨timeout, isTimeout, failed⟩ := bind_eq_error.mp failed
  · exact .unread [.port, .host, .capacity] rfl (by simp [portFits, hostFits, capacityFits])
      (by decide) id failed
  rw [number_eq_ok] at isTimeout
  have timeoutFits : Variable.timeout.Accepts (lookup Variable.timeout.key) :=
    ⟨timeout, isTimeout, Nat.zero_le _⟩
  have before : ∀ w ∈ [Variable.port, .host, .capacity, .timeout], w.Accepts (lookup w.key) := by
    simp [portFits, hostFits, capacityFits, timeoutFits]
  obtain failed | ⟨frameLimit, isFrameLimit, failed⟩ := bind_eq_error.mp failed
  · exact .unread [.port, .host, .capacity, .timeout] rfl before (by decide) id failed
  rw [number_eq_ok] at isFrameLimit
  obtain ⟨small, rfl⟩ | ⟨enough, failed⟩ := unless_lt_eq_error.mp failed
  · exact .at [.port, .host, .capacity, .timeout] rfl before
      (not_gives_of_lt isFrameLimit small) .frameLimit
  · cases failed

/-- How a configuration is read. -/
structure ReadApart (lookup : String → Option String) : Prop where
  /-- It is read if every variable, by itself, can be used. -/
  accepted : (∃ c, load lookup = .ok c) ↔ ∀ v : Variable, v.Accepts (lookup v.key)
  /-- Each part of it is what its own variable gives. -/
  decided : ∀ c, load lookup = .ok c ↔ ∀ v : Variable, v.Gives (lookup v.key) (v.of c)
  /-- Other variables do not matter to it. -/
  apart : ∀ (lookup' : String → Option String) (c c' : Config) (v : Variable),
    load lookup = .ok c → load lookup' = .ok c' → lookup v.key = lookup' v.key → v.of c = v.of c'
  /-- A host cannot bring a port along. -/
  portless : ∀ (host more : List Char) (h : Host), HostText host h →
    lookup hostKey = some (String.ofList (host ++ ':' :: more)) →
      ¬ Variable.host.Accepts (lookup hostKey)
  refused : ∀ e, load lookup = .error e → FirstFault lookup e
  /-- Nothing else is looked at. -/
  unread : ∀ lookup' : String → Option String, (∀ key ∈ keys, lookup key = lookup' key) →
    load lookup = load lookup'

theorem variables_are_read_apart (lookup : String → Option String) : ReadApart lookup where
  accepted := by
    constructor
    · rintro ⟨c, loaded⟩ v
      exact ⟨_, load_eq_ok.mp loaded v⟩
    · intro accepts
      obtain ⟨c, gives⟩ := exists_of_accepts accepts
      exact ⟨c, load_eq_ok.mpr gives⟩
  decided c := load_eq_ok
  apart lookup' c c' v loaded loaded' same := by
    have gives := load_eq_ok.mp loaded v
    rw [same] at gives
    exact gives.unique (load_eq_ok.mp loaded' v)
  portless host more h isHost set := by
    rintro ⟨h', longer⟩
    rw [set] at longer
    exact isHost.no_port more (by simpa [Variable.Gives] using longer)
  refused e := firstFault_of_load_eq_error
  unread lookup' same := by
    have looked {key : String} (known : key ∈ keys) (bound default : Nat) :
        number lookup key bound default = number lookup' key bound default := by
      rw [number, number, same key known]
    simp only [load, same hostKey (by decide), looked (show portKey ∈ keys by decide),
      looked (show capacityKey ∈ keys by decide), looked (show timeoutKey ∈ keys by decide),
      looked (show frameLimitKey ∈ keys by decide)]

/-- The scope belongs to the host, and blanks do not belong to the number. -/
example :
    load (fun key =>
      if key = hostKey then some "[::ffff:10.0.0.7%3]"
      else if key = portKey then some " +81\n"
      else none) =
    .ok ⟨.v6 [0, 0, 0, 0, 0, 0xFFFF, 0x0A00, 7] 3 81, Limits.default⟩ := by rfl

example :
    load (fun key => if key = hostKey then some "10.0.0.7:81" else none) =
    .error (.invalidAddress "10.0.0.7:81" 8080) := by rfl

end Mailroom.Config
