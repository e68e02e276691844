import DeliveryPath.Transformation.Setters

/-!
# Sizes for an image tag

An image tag announces a size only if the size is known beforehand: not an expression, not a percentage, and not
a fraction of the size that the asset has. A width must be a number of at least one; a height may also be a word.
-/

namespace DeliveryPath

def endsInPercent (size : String) : Bool := (trimEnd size.toList).getLast? = some '%'

/-- Whether a size depends on the asset or on its surroundings. -/
def isRelativeSize (size : String) : Bool := containsVariable size || endsInPercent size

/-- Whether the word `auto` occurs, in letters of either case. -/
def mentionsAuto (size : String) : Bool := (cut? "auto".toList (size.toList.map Char.toLower)).isSome

def isStaticWidth (width : String) : Bool :=
  !isRelativeSize width && !mentionsAuto width && (readNumber? width).any Binary64.atLeastOne

def isStaticHeight (height : String) : Bool :=
  !isRelativeSize height && (readNumber? height).all Binary64.atLeastOne

end DeliveryPath
