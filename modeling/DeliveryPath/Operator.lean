/-!
# Operators of expressions

An operator has a symbol, which people write, and a word, which a delivery path holds.
-/

namespace DeliveryPath

inductive Operator where
  | eq | ne | lt | gt | lte | gte | and | or | mul | div | add | sub | pow
deriving DecidableEq

namespace Operator

def all : List Operator := [eq, ne, lt, gt, lte, gte, and, or, mul, div, add, sub, pow]

theorem mem_all (o : Operator) : o ∈ all := by cases o <;> decide

def symbol : Operator → String
  | eq => "="
  | ne => "!="
  | lt => "<"
  | gt => ">"
  | lte => "<="
  | gte => ">="
  | and => "&&"
  | or => "||"
  | mul => "*"
  | div => "/"
  | add => "+"
  | sub => "-"
  | pow => "^"

def code : Operator → String
  | eq => "eq"
  | ne => "ne"
  | lt => "lt"
  | gt => "gt"
  | lte => "lte"
  | gte => "gte"
  | and => "and"
  | or => "or"
  | mul => "mul"
  | div => "div"
  | add => "add"
  | sub => "sub"
  | pow => "pow"

def ofSymbol? (text : String) : Option Operator := all.find? (·.symbol = text)

theorem ofSymbol?_symbol (o : Operator) : ofSymbol? o.symbol = some o := by cases o <;> decide

end Operator

/-- The operators that are words to begin with and have no symbol. -/
def wordOperators : List String := ["in", "nin"]

end DeliveryPath
