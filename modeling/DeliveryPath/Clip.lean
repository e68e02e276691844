import DeliveryPath.Text.Cut
import DeliveryPath.Text.DecimalDigit
import DeliveryPath.Text.Pattern

/-!
# Clips

The start, end and duration of a clip are points on its time line: a number with an optional fraction, and
optionally a percent sign, written `%`, `p` or `P`. A range is a start and an end with two dots between them.
-/

namespace DeliveryPath

/-- Digits, or digits, a point and digits. -/
def timeNumber : Pattern :=
  .seq (.optional (.seq (.run isDecimalDigit) (.one (· == '.')))) (.run isDecimalDigit)

def isPercentMark (c : Char) : Bool := c == '%' || c == 'p' || c == 'P'

def percentMark : Pattern := .optional (.one isPercentMark)

/-- A point on the time line, percents marked by `p`; nothing if the text is no such point. -/
def clipPoint? (text : String) : Option String :=
  (timeNumber.rests text.toList).findSome? fun
    | [] => some text
    | [c] => if isPercentMark c then some (String.ofList (text.toList.dropLast ++ ['p'])) else none
    | _ => none

/-- The start of a clip may also be left to the service. -/
def clipStart? (text : String) : Option String := if text = "auto" then some "auto" else clipPoint? text

def twoDots : Pattern := .seq (.one (· == '.')) (.one (· == '.'))

def clipRange : Pattern :=
  .seq timeNumber (.seq percentMark (.seq twoDots (.seq timeNumber percentMark)))

/-- The start and the end of a range, as they are written. The cut is at the first two dots. -/
def clipRange? (text : String) : Option (String × String) :=
  if clipRange.describes text.toList then
    (cut? ['.', '.'] text.toList).map fun sides => (String.ofList sides.1, String.ofList sides.2)
  else none

end DeliveryPath
