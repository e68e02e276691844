import DeliveryPath.Binary64.Basic
import DeliveryPath.Text.Decimal

/-!
# Two decimal places

Numbers are written with a point and one or two decimal places. The exact value is rounded to hundredths, a tie
going to the even hundredth, and a zero in the second place is left out. The sign is that of the number, so
that a small negative number reads `-0.0`.
-/

namespace DeliveryPath

/-- The magnitude `mantissa · 2 ^ exponent` in hundredths, rounded to the nearest. -/
def hundredths (mantissa : Nat) (exponent : Int) : Nat :=
  roundHalfEven (100 * mantissa * pow2 exponent.toNat) (pow2 (-exponent).toNat)

/-- A count of hundredths as a decimal with one place, or with two if the second is not zero. -/
def hundredthsText (n : Nat) : String :=
  Nat.repr (n / 100) ++ String.ofList ('.' :: decimalDigit (n / 10) :: if n % 10 = 0 then [] else [decimalDigit n])

def signText (negative : Bool) : String := if negative then "-" else ""

def Binary64.twoPlaces : Binary64 → String
  | .nan => "NaN"
  | .infinite negative => signText negative ++ "inf"
  | .finite negative mantissa exponent => signText negative ++ hundredthsText (hundredths mantissa exponent)

end DeliveryPath
