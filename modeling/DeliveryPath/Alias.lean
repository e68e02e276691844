import DeliveryPath.Operator
import DeliveryPath.Quantity

/-!
# Looking up codes
-/

namespace DeliveryPath

/-- The code of a symbol or of a quantity's name. -/
def aliasCode? (text : String) : Option String :=
  ((Operator.ofSymbol? text).map Operator.code).or ((Quantity.ofName? text).map Quantity.code)

/-- Whether a word of a delivery path is a code: that of an operator or a quantity, or an operator that is a
word to begin with. -/
def isShortCode (word : String) : Bool :=
  Operator.all.any (·.code = word) || Quantity.all.any (·.code = word) || wordOperators.contains word

end DeliveryPath
