import DeliveryPath.Binary64.Basic
import DeliveryPath.Text.Decimal

/-!
# Reading numerals

A numeral is an optional sign, then `inf`, `infinity` or `nan` in letters of either case, or decimal digits with
at most one point among them and at least one digit, and an optional exponent. Only ASCII digits count, and
nothing may stand around the numeral. It denotes the number of the format that is nearest to its exact value.
-/

namespace DeliveryPath

/-- The number nearest to `± significand · 10 ^ exponent`. Far outside the range of every format the answer is
known without the power: above `10 ^ 400` infinity, below `10 ^ -399` zero. -/
def BinaryFormat.ofDecimal (f : BinaryFormat) (negative : Bool) (significand : Nat) (exponent : Int) : Binary64 :=
  if significand = 0 ∨ exponent < -(400 + (Nat.log2 significand : Int)) then .finite negative 0 f.minExponent
  else if 400 < exponent then .infinite negative
  else f.round negative (significand * pow10 exponent.toNat) (pow10 (-exponent).toNat)

/-- The exponent part that ends a numeral; zero if there is none. -/
def readExponent? : List Char → Option Int
  | [] => some 0
  | c :: rest => if c = 'e' ∨ c = 'E' then readInteger? rest else none

def readDecimal? (f : BinaryFormat) (negative : Bool) (cs : List Char) : Option Binary64 :=
  let whole := cs.takeWhile Char.isDigit
  let (fraction, rest) := match cs.dropWhile Char.isDigit with
    | '.' :: rest => (rest.takeWhile Char.isDigit, rest.dropWhile Char.isDigit)
    | rest => ([], rest)
  if whole.isEmpty && fraction.isEmpty then none
  else (readExponent? rest).map fun e => f.ofDecimal negative (digitsValue (whole ++ fraction)) (e - fraction.length)

/-- The number that a numeral denotes in a format. -/
def BinaryFormat.read? (f : BinaryFormat) (text : String) : Option Binary64 :=
  match splitSign text.toList with
  | (negative, rest) =>
    let lower := rest.map Char.toLower
    if lower = "inf".toList ∨ lower = "infinity".toList then some (.infinite negative)
    else if lower = "nan".toList then some .nan
    else readDecimal? f negative rest

def Binary64.read? (text : String) : Option Binary64 := BinaryFormat.double.read? text

end DeliveryPath
