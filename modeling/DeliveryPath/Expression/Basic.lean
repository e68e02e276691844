import DeliveryPath.Error
import DeliveryPath.Expression.Normalize
import DeliveryPath.Expression.VariableName

/-!
# Expressions

An expression is a list of tokens: quantities, operators, values, or whole texts in free form. Joined by
underscores and made compact, it is the value of a parameter, the predicate of a condition, or an assignment to
a user variable.
-/

namespace DeliveryPath

structure Expression where
  tokens : List String := []

namespace Expression

/-- An expression in free form, such as `width * 2`. -/
def ofText (text : String) : Expression := ⟨[text]⟩

def ofQuantity (q : Quantity) : Expression := ofText q.name

def push (e : Expression) (token : String) : Expression := ⟨e.tokens ++ [token]⟩

def operator (e : Expression) (o : Operator) : Expression := e.push o.code

/-- Membership of a value in a list. -/
def isIn (e : Expression) : Expression := e.push "in"

def isNotIn (e : Expression) : Expression := e.push "nin"

/-- The word for an operator that is given by its symbol; any other text is taken for the word itself. -/
def operatorWord (operator : String) : String := ((Operator.ofSymbol? operator).map Operator.code).getD operator

/-- A comparison of a quantity with a value, as one token. -/
def predicate (e : Expression) (q : Quantity) (operator value : String) : Expression :=
  e.push (q.code ++ "_" ++ operatorWord operator ++ "_" ++ value)

/-- The compact form. -/
def serialize (e : Expression) : String := normalize ("_".intercalate e.tokens)

end Expression

/-- Fails unless the name is one for a user variable. -/
def checkVariableName (name : String) : Except Error Unit :=
  if isVariableName name then .ok () else .error (.variableName name)

/-- The assignment of a value to a user variable. -/
def Expression.assignment (name value : String) : Except Error Expression := do
  checkVariableName name
  return ⟨[name, value]⟩

/-- Whether a value is known only when the asset is delivered: it refers to a user variable, or it has several
words in compact form and a code among them. -/
def containsVariable (value : String) : Bool :=
  value.toList.contains '$' ||
    (let words := (compact value.toList).splitOn '_'
     decide (1 < words.length) && words.any fun word => isShortCode (String.ofList word))

end DeliveryPath
