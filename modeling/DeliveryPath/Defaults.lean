import DeliveryPath.Render.Transformation

/-!
# Defaults from the environment
-/

namespace DeliveryPath

inductive EnvironmentError where
  /-- The variable for responsive segments is neither true nor false. -/
  | responsiveFlag

def EnvironmentError.message : EnvironmentError → String
  | responsiveFlag => "VISTA_RESPONSIVE must be 'true' or 'false'"

/-- A text that does not consist of blanks alone. -/
def notBlank (text : String) : Bool := !(trim text.toList).isEmpty

/-- The defaults that environment variables set. Blank texts count as absent; the flag may be in letters of either
case. -/
def Defaults.ofEnvironment (lookup : String → Option String) : Except EnvironmentError Defaults :=
  let flag := (lookup "VISTA_RESPONSIVE").getD "false"
  match readBool? (String.ofList (flag.toList.map Char.toLower)) with
  | none => .error .responsiveFlag
  | some responsive =>
    let path := ((lookup "VISTA_RESPONSIVE_WIDTH_TRANSFORMATION").filter notBlank).getD usualResponsivePath
    .ok {
      dpr := (lookup "VISTA_DEFAULT_DPR").filter notBlank
      responsive
      responsiveWidth := Transformation.empty.set .rawTransformation path }

end DeliveryPath
