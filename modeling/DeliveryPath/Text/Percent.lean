import DeliveryPath.Text.Hexadecimal

/-!
# Percent encoding

The unreserved characters stand for themselves; every other character is written as its UTF-8 bytes, each a
percent sign with two upper-case hexadecimal digits. `Percent.decode?` reads such a text back to bytes.
-/

namespace DeliveryPath.Percent

def escapeByte (b : UInt8) : List Char := ['%', hexDigit (b.toNat / 16), hexDigit (b.toNat % 16)]

def isUnreserved (c : Char) : Bool := c.isAlphanum || c == '-' || c == '_' || c == '.' || c == '~'

def encodeChar (c : Char) : List Char :=
  if isUnreserved c then [c] else (String.utf8EncodeChar c).flatMap escapeByte

def encode (cs : List Char) : List Char := cs.flatMap encodeChar

/-- The bytes that a text stands for. A percent sign must be followed by two hexadecimal digits; all else is
taken as its UTF-8 bytes. -/
def decode? : List Char → Option (List UInt8)
  | [] => some []
  | '%' :: h :: l :: rest => do
    let high ← hexValue? h
    let low ← hexValue? l
    return UInt8.ofNat (16 * high + low) :: (← decode? rest)
  | c :: rest => if c = '%' then none else (decode? rest).map (String.utf8EncodeChar c ++ ·)

end DeliveryPath.Percent
