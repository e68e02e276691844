/-!
# Binary floating-point numbers

A number is a sign, a mantissa and an exponent; its value is the exact rational `± mantissa · 2 ^ exponent`. No
arithmetic is done on machine floats: a result is worked out exactly and then rounded once, to the nearest
number of the format, ties going to the even mantissa (`BinaryFormat.round`).
-/

namespace DeliveryPath

inductive Binary64 where
  | nan
  | infinite (negative : Bool)
  /-- The value `± mantissa · 2 ^ exponent`; the sign is kept for zero too. -/
  | finite (negative : Bool) (mantissa : Nat) (exponent : Int)
deriving DecidableEq

/-- The numbers of a format have mantissas below `2 ^ precision` and exponents in the given range. -/
structure BinaryFormat where
  precision : Nat
  minExponent : Int
  maxExponent : Int

def BinaryFormat.double : BinaryFormat := ⟨53, -1074, 971⟩

/-- Every number of this format is one of `BinaryFormat.double` too. -/
def BinaryFormat.single : BinaryFormat := ⟨24, -149, 104⟩

/-! ## Powers of two and of ten -/

def pow2 (n : Nat) : Nat := Nat.pow 2 n

def pow10 (n : Nat) : Nat := Nat.pow 10 n

/-! ## Rounding -/

/-- The integer nearest to `num / den`; halfway between two, the even one. -/
def roundHalfEven (num den : Nat) : Nat :=
  if 2 * (num % den) < den then num / den
  else if den < 2 * (num % den) then num / den + 1
  else num / den + num / den % 2

/-- The largest `l` with `2 ^ l ≤ num / den`, for positive `num` and `den`. -/
def floorLog2 (num den : Nat) : Int :=
  let l : Int := (Nat.log2 num : Int) - Nat.log2 den
  if num * pow2 (-l).toNat < den * pow2 l.toNat then l - 1 else l

/-- The number of the format nearest to `± num / den`, ties to the even mantissa; beyond the largest finite
number, the infinity. -/
def BinaryFormat.round (f : BinaryFormat) (negative : Bool) (num den : Nat) : Binary64 :=
  if num = 0 then .finite negative 0 f.minExponent
  else
    let e := max f.minExponent (floorLog2 num den + 1 - f.precision)
    let m := roundHalfEven (num * pow2 (-e).toNat) (den * pow2 e.toNat)
    let (m, e) := if m = pow2 f.precision then (pow2 (f.precision - 1), e + 1) else (m, e)
    if f.maxExponent < e then .infinite negative else .finite negative m e

namespace Binary64

/-! ## Order -/

/-- Strictly above zero. -/
def isPositive : Binary64 → Bool
  | .nan => false
  | .infinite negative => !negative
  | .finite negative mantissa _ => !negative && mantissa != 0

def atLeastOne : Binary64 → Bool
  | .nan => false
  | .infinite negative => !negative
  | .finite negative mantissa exponent =>
    !negative && decide (pow2 (-exponent).toNat ≤ mantissa * pow2 exponent.toNat)

/-! ## Arithmetic on finite numbers -/

def isZero : Binary64 → Bool
  | .finite _ 0 _ => true
  | _ => false

def isFinite : Binary64 → Bool
  | .finite .. => true
  | _ => false

def neg : Binary64 → Binary64
  | .nan => .nan
  | .infinite negative => .infinite !negative
  | .finite negative mantissa exponent => .finite (!negative) mantissa exponent

/-- The nearest number to the product; not a number unless both factors are finite. -/
def mul : Binary64 → Binary64 → Binary64
  | .finite n₁ m₁ e₁, .finite n₂ m₂ e₂ =>
    BinaryFormat.double.round (n₁ != n₂) (m₁ * m₂ * pow2 (e₁ + e₂).toNat) (pow2 (-(e₁ + e₂)).toNat)
  | _, _ => .nan

/-- The nearest number to the quotient; not a number unless both are finite and the divisor is not zero. -/
def div : Binary64 → Binary64 → Binary64
  | .finite n₁ m₁ e₁, .finite n₂ m₂ e₂ =>
    if m₂ = 0 then .nan
    else BinaryFormat.double.round (n₁ != n₂) (m₁ * pow2 (e₁ - e₂).toNat) (m₂ * pow2 (e₂ - e₁).toNat)
  | _, _ => .nan

end Binary64

end DeliveryPath
