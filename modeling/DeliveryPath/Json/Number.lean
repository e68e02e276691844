import DeliveryPath.Binary64.Numeral
import DeliveryPath.Json.Basic

/-!
# Numbers in JSON

The digits of a number are gathered into a significand below `2 ^ 64`. A whole number that fits is kept exactly,
a negative one down to `-2 ^ 63`. Any other number is the significand times a power of ten, with a rounding after
each step: of the significand, of the power, and of their product or quotient.
-/

namespace DeliveryPath

/-- The parts of a number as written. -/
structure NumberParts where
  negative : Bool
  whole : List Char
  fraction : Option (List Char)
  exponent : Option Int

/-- Digits appended to a significand as long as it stays below `2 ^ 64`; how many went in, and how many are left. -/
def absorb : Nat → List Char → Nat × Nat × Nat
  | significand, [] => (significand, 0, 0)
  | significand, c :: rest =>
    let next := 10 * significand + (c.toNat - 48)
    if next < pow2 64 then
      let (result, absorbed, left) := absorb next rest
      (result, absorbed + 1, left)
    else (significand, 0, rest.length + 1)

def binaryOfNat (n : Nat) : Binary64 := BinaryFormat.double.round false n 1

/-- Division by a power of ten, in steps of at most `10 ^ 308`, the largest that is finite. -/
def divPowerOfTen (x : Binary64) (power : Nat) : Binary64 :=
  if power ≤ 308 then x.div (binaryOfNat (pow10 power))
  else if x.isZero then x
  else divPowerOfTen (x.div (binaryOfNat (pow10 308))) (power - 308)
termination_by power

/-- Multiplication by a power of ten; nothing if the product is not finite. -/
def mulPowerOfTen? (x : Binary64) (power : Nat) : Option Binary64 :=
  if power ≤ 308 then
    let product := x.mul (binaryOfNat (pow10 power))
    if product.isFinite then some product else none
  else if x.isZero then some x
  else none

/-- The number `significand · 10 ^ exponent`; nothing if it is too large. -/
def scaleDecimal? (significand : Nat) (exponent : Int) : Option Binary64 :=
  if exponent < 0 then some (divPowerOfTen (binaryOfNat significand) exponent.natAbs)
  else mulPowerOfTen? (binaryOfNat significand) exponent.toNat

namespace NumberParts

/-- The significand and the exponent of ten. Digits of the whole part that do not fit raise the exponent, those of
the fraction are dropped. -/
def decimal (p : NumberParts) : Nat × Int :=
  let (whole, _, left) := absorb 0 p.whole
  let (significand, absorbed, _) := absorb whole (p.fraction.getD [])
  (significand, (left : Int) - absorbed + p.exponent.getD 0)

/-- The exact value of a whole number, if it is in range; a negative zero is none. -/
def integer? (p : NumberParts) : Option Int :=
  if p.fraction.isSome || p.exponent.isSome then none
  else
    let n := digitsValue p.whole
    if p.negative then (if 0 < n ∧ n ≤ pow2 63 then some (-(n : Int)) else none)
    else if n < pow2 64 then some n
    else none

/-- The number; nothing if it is too large. -/
def toJson? (p : NumberParts) : Option Json :=
  match p.integer? with
  | some n => some (.integer n)
  | none =>
    let (significand, exponent) := p.decimal
    (scaleDecimal? significand exponent).map fun x => .real (if p.negative then x.neg else x)

end NumberParts

end DeliveryPath
