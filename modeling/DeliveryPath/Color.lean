import DeliveryPath.Text.Cut

/-!
# Colors
-/

namespace DeliveryPath

/-- A color as a path shows it: a hexadecimal one is marked by `rgb:`, a name stays. -/
def colorText (color : String) : String :=
  match dropFront? ['#'] color.toList with
  | some hex => "rgb:" ++ String.ofList hex
  | none => color

end DeliveryPath
