import DeliveryPath.Error
import DeliveryPath.Text.Blank

/-!
# Corner radius

One radius for all corners, or two to four from the top left clockwise, with the usual shorthands; or the
largest possible one.
-/

namespace DeliveryPath

structure Radius where
  corners : List String

namespace Radius

/-- Fully rounded. -/
def max : Radius := ⟨["max"]⟩

def isBlankCorner (corner : String) : Bool := (trim corner.toList).isEmpty

/-- The number of corners is checked before their values. -/
def ofCorners (corners : List String) : Except Error Radius :=
  if corners.isEmpty || decide (4 < corners.length) then .error (.radiusCount corners.length)
  else
    match corners.findIdx? isBlankCorner with
    | some position => .error (.radiusBlank position)
    | none => .ok ⟨corners⟩

def text (r : Radius) : String := ":".intercalate r.corners

end Radius

end DeliveryPath
