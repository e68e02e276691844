import DeliveryPath.Json.Basic

/-!
# Results

What a transformation comes to: its path, and what an image tag beside it should know.
-/

namespace DeliveryPath

structure Rendered where
  path : String
  htmlWidth : Option String
  htmlHeight : Option String
  /-- The device pixel ratio is left to the device. -/
  hiDpi : Bool
  /-- The width depends on the space that is there. -/
  isResponsive : Bool
deriving DecidableEq

namespace Rendered

/-- The size attributes of an image tag. -/
def htmlAttributes (r : Rendered) : List (String × String) :=
  (r.htmlWidth.map ("width", ·)).toList ++ (r.htmlHeight.map ("height", ·)).toList

def text? : Json → Option String
  | .string s => some s
  | _ => none

def flag? : Json → Option Bool
  | .bool b => some b
  | _ => none

/-- A result read from an object, or from an array of its five parts in order. The sizes may be `null`, and in an
object they may be missing. -/
def ofJson? : Json → Option Rendered
  | .object fields => do
    let members := Json.members fields
    return {
      path := ← (valueAt? "path" members).bind text?
      htmlWidth := ← Json.optionalText? (valueAt? "html_width" members)
      htmlHeight := ← Json.optionalText? (valueAt? "html_height" members)
      hiDpi := ← (valueAt? "hi_dpi" members).bind flag?
      isResponsive := ← (valueAt? "is_responsive" members).bind flag? }
  | .array [path, width, height, hiDpi, isResponsive] => do
    return {
      path := ← text? path
      htmlWidth := ← Json.optionalText? (some width)
      htmlHeight := ← Json.optionalText? (some height)
      hiDpi := ← flag? hiDpi
      isResponsive := ← flag? isResponsive }
  | _ => none

end Rendered

end DeliveryPath
