import DeliveryPath.Binary64.TwoPlaces

/-!
# Shortest decimals

The shortest decimal that reads back as a number: of all decimals with the fewest digits among those nearer to
the number than to its neighbours, the nearest one, the larger of two that are equally near. It is written
positionally at every magnitude, without an exponent and without a point for whole numbers.
-/

namespace DeliveryPath

/-- The interval of values that round to `mantissa · 2 ^ exponent`, in units of `2 ^ (exponent - 2)`. Below a power
of two the neighbour is only half as far away. -/
structure Basin where
  low : Nat
  high : Nat
  exponent : Int
  /-- The ends round to an even mantissa, too. -/
  closed : Bool

def Basin.of (mantissa : Nat) (exponent : Int) : Basin :=
  let narrow : Bool := mantissa == pow2 52 && decide (BinaryFormat.double.minExponent < exponent)
  { low := 4 * mantissa - if narrow then 1 else 2
    high := 4 * mantissa + 2
    exponent := exponent - 2
    closed := mantissa % 2 == 0 }

/-- Whether the decimal `digits · 10 ^ power` lies in the interval. -/
def Basin.holds (b : Basin) (digits : Nat) (power : Int) : Bool :=
  let decimal := digits * pow10 power.toNat * pow2 (-b.exponent).toNat
  let unit := pow10 (-power).toNat * pow2 b.exponent.toNat
  if b.closed then decide (b.low * unit ≤ decimal) && decide (decimal ≤ b.high * unit)
  else decide (b.low * unit < decimal) && decide (decimal < b.high * unit)

/-- The power of ten of the leading decimal digit of `num / den`. -/
def leadingPower (num den : Nat) : Int :=
  if den ≤ num then ((Nat.toDigits 10 (num / den)).length : Int) - 1
  else -((Nat.toDigits 10 ((den - 1) / num)).length : Int)

/-- Of the two multiples of `10 ^ power` around `num / den` the one to write: the nearest that lies in the
interval, the upper one when both are equally near. -/
def neighbour? (b : Basin) (num den : Nat) (power : Int) : Option Nat :=
  let scaled := num * pow10 (-power).toNat
  let unit := den * pow10 power.toNat
  let below := scaled / unit
  let above := below + 1
  let upFirst := decide (unit ≤ 2 * (scaled % unit))
  match b.holds below power, b.holds above power with
  | true, true => some (if upFirst then above else below)
  | true, false => some below
  | false, true => some above
  | false, false => none

/-- The positional text of `digits · 10 ^ power`. -/
def positional (digits : Nat) (power : Int) : String :=
  if 0 ≤ power then Nat.repr (digits * pow10 power.toNat)
  else
    let places := (-power).toNat
    let fraction := (List.range places).map fun i => decimalDigit (digits / pow10 (places - 1 - i))
    let kept := (fraction.reverse.dropWhile (· == '0')).reverse
    Nat.repr (digits / pow10 places) ++ String.ofList (if kept.isEmpty then [] else '.' :: kept)

/-- The shortest decimal of the positive number `mantissa · 2 ^ exponent`. Seventeen digits always suffice. -/
def shortestMagnitude (mantissa : Nat) (exponent : Int) : String :=
  let num := mantissa * pow2 exponent.toNat
  let den := pow2 (-exponent).toNat
  let lead := leadingPower num den
  let basin := Basin.of mantissa exponent
  let found := (List.range 17).findSome? fun (n : Nat) =>
    let power := lead - n
    (neighbour? basin num den power).map (positional · power)
  found.getD ""

def Binary64.shortest : Binary64 → String
  | .nan => "NaN"
  | .infinite negative => signText negative ++ "inf"
  | .finite negative mantissa exponent =>
    signText negative ++ if mantissa = 0 then "0" else shortestMagnitude mantissa exponent

end DeliveryPath
