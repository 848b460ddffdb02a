/-!
# Shortest decimal form

A floating point number is shown by the fewest decimal digits that still read back as that number,
and of those by the ones nearest to it. All of it is decided in exact integer arithmetic on the
number's bits; no floating point operation is used.

The number has to be finite.
-/

namespace Mailroom.Shortest

/-- The magnitude `mantissa * 2 ^ exponent`. -/
structure Magnitude where
  mantissa : Nat
  exponent : Int
  /-- The next smaller number is only half as far away as the next larger one. -/
  nearBelow : Bool

/-- The magnitude coded by the 64 bits of a finite number. -/
def Magnitude.ofBits (bits : UInt64) : Magnitude :=
  let stored := ((bits >>> 52) &&& 0x7FF).toNat
  let fraction := (bits &&& 0xFFFFFFFFFFFFF).toNat
  { mantissa := if stored = 0 then fraction else fraction + 0x10000000000000
    exponent := (max stored 1 : Nat) - 1075
    nearBelow := stored > 1 && fraction = 0 }

/-- The number `digits * 10 ^ exponent`. -/
structure Decimal where
  digits : Nat
  exponent : Int

namespace Magnitude

/-- Multiplying quarters of the last mantissa place by this, and `gridFactor`, makes a magnitude and
a multiple of `10 ^ place` comparable as integers. -/
def quarterFactor (x : Magnitude) (place : Int) : Nat :=
  Nat.pow 2 (x.exponent - 2).toNat * Nat.pow 10 (-place).toNat

def gridFactor (x : Magnitude) (place : Int) : Nat :=
  Nat.pow 2 (2 - x.exponent).toNat * Nat.pow 10 place.toNat

/-- The magnitude in quarters of its last place. -/
def quarters (x : Magnitude) : Nat := 4 * x.mantissa

/-- Does `d * 10 ^ place` read back as this magnitude? The ends of the interval that rounds to it
belong to it when the mantissa is even. -/
def readsBack (x : Magnitude) (place : Int) (d : Nat) : Bool :=
  let low := (x.quarters - if x.nearBelow then 1 else 2) * x.quarterFactor place
  let high := (x.quarters + 2) * x.quarterFactor place
  let point := d * x.gridFactor place
  if x.mantissa % 2 = 0 then low ≤ point && point ≤ high else low < point && point < high

/-- The better of the two multiples of `10 ^ place` around the magnitude, if one reads back. An
exact tie goes to the even one. -/
def onGrid? (x : Magnitude) (place : Int) : Option Nat :=
  let value := x.quarters * x.quarterFactor place
  let unit := x.gridFactor place
  let d := value / unit
  let past := value % unit
  match x.readsBack place d, x.readsBack place (d + 1) with
  | true, true =>
    if 2 * past < unit then some d
    else if unit < 2 * past then some (d + 1)
    else some (if d % 2 = 0 then d else d + 1)
  | true, false => some d
  | false, true => some (d + 1)
  | false, false => none

/-- The largest `k` with `10 ^ k` at most the magnitude; every finite number has one from -324
to 308. -/
def leadingPlace (x : Magnitude) : Int :=
  let places := (List.range 634).map fun i => (308 : Int) - (i : Nat)
  (places.find? fun k => x.gridFactor k ≤ x.quarters * x.quarterFactor k).getD 0

/-- Try one digit, then two, up to the seventeen that always suffice. -/
def shortest (x : Magnitude) : Decimal :=
  let k := x.leadingPlace
  let grids := (List.range 17).map fun (n : Nat) => k - (n : Int)
  match grids.findSome? fun place => (x.onGrid? place).map fun d => (⟨d, place⟩ : Decimal) with
  | some d => d
  | none => ⟨0, 0⟩

end Magnitude

/-- Drops final zeros from a list of digits given last digit first, counting them. -/
def dropZeros : List Char → Nat × List Char
  | '0' :: ds => let (n, r) := dropZeros ds; (n + 1, r)
  | ds => (0, ds)

/-- Positional from `10 ^ -5` up to below `10 ^ 16`, always with a digit on either side of the
point; otherwise one digit before the point and a signed exponent. -/
def Decimal.render (d : Decimal) : List Char :=
  let (zeros, reversed) := dropZeros (Nat.toDigits 10 d.digits).reverse
  let ds := reversed.reverse
  let last := d.exponent + (zeros : Int)
  let first := last + (ds.length : Int) - 1
  if -5 ≤ first ∧ first ≤ 15 then
    if 0 ≤ last then ds ++ List.replicate last.toNat '0' ++ ['.', '0']
    else if 0 ≤ first then ds.take (first.toNat + 1) ++ ['.'] ++ ds.drop (first.toNat + 1)
    else ['0', '.'] ++ List.replicate (-first - 1).toNat '0' ++ ds
  else
    let mantissa := match ds with
      | [] => []
      | [c] => [c]
      | c :: r => c :: '.' :: r
    let sign := if first < 0 then '-' else '+'
    mantissa ++ ['e', sign] ++ Nat.toDigits 10 first.natAbs

/-- The shortest text of the finite number with these bits; a zero keeps its sign. -/
def render (bits : UInt64) : String :=
  let x := Magnitude.ofBits bits
  let sign := if bits < 0x8000000000000000 then [] else ['-']
  let body := if x.mantissa = 0 then ['0', '.', '0'] else x.shortest.render
  String.ofList (sign ++ body)

end Mailroom.Shortest
