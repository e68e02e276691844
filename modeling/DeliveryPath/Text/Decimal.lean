/-!
# Decimal digits and integers

Written with ASCII digits only.
-/

namespace DeliveryPath

/-- The last decimal digit of a number. -/
def decimalDigit (n : Nat) : Char := Char.ofNat (48 + n % 10)

/-- The value of a run of decimal digits. -/
def digitsValue (digits : List Char) : Nat := digits.foldl (fun n c => 10 * n + (c.toNat - 48)) 0

/-- A sign and what it stands before; no sign is a plus. The sign is true for a minus. -/
def splitSign : List Char → Bool × List Char
  | '-' :: rest => (true, rest)
  | '+' :: rest => (false, rest)
  | rest => (false, rest)

theorem length_splitSign (cs : List Char) : (splitSign cs).2.length ≤ cs.length := by
  unfold splitSign; split <;> simp

/-- A whole text of decimal digits, with an optional sign before them. -/
def readInteger? (cs : List Char) : Option Int :=
  match splitSign cs with
  | (negative, digits) =>
    if digits.isEmpty || !digits.all Char.isDigit then none
    else some (if negative then -(digitsValue digits : Int) else digitsValue digits)

end DeliveryPath
