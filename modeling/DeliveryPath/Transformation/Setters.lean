import DeliveryPath.Binary64.Numeral
import DeliveryPath.Color
import DeliveryPath.CustomFunction
import DeliveryPath.Radius
import DeliveryPath.Text.Blank
import DeliveryPath.Transformation.Basic

/-!
# Setting parameters

Most parameters take a single text. The others are built from several arguments, or check the one they take.
-/

namespace DeliveryPath

/-! ## Checks of arguments -/

def checkOffsetCount (count : Nat) : Except Error Unit := if count < 2 then .error (.offsetCount count) else .ok ()

/-- An interval in seconds must be more than none. -/
def checkInterval (interval : Binary64) : Except Error Unit :=
  if interval.isPositive then .ok () else .error (.keyframeInterval interval)

/-- The number that a text spells, blanks around it aside. -/
def readNumber? (text : String) : Option Binary64 := Binary64.read? (String.ofList (trim text.toList))

/-- A text that is a number is checked like one; any other passes. -/
def checkIntervalText (text : String) : Except Error Unit :=
  match readNumber? text with
  | some interval => checkInterval interval
  | none => .ok ()

namespace Transformation

/-- Sets a parameter to a single text. -/
def set (t : Transformation) (p : Parameter) (text : String) : Transformation := t.add p.name (.scalar text)

/-- Sets a parameter to several values. -/
def setList (t : Transformation) (p : Parameter) (items : List String) : Transformation := t.add p.name (.list items)

/-! ## Sizes of the image tag -/

def setHtmlWidth (t : Transformation) (width : String) : Transformation :=
  { t with current := { t.current with htmlWidth := some width } }

def setHtmlHeight (t : Transformation) (height : String) : Transformation :=
  { t with current := { t.current with htmlHeight := some height } }

/-! ## User variables -/

def setVariable (t : Transformation) (name value : String) : Except Error Transformation := do
  checkVariableName name
  return t.add name (.scalar value)

/-- A variable that holds a list of texts. -/
def setListVariable (t : Transformation) (name : String) (values : List String) : Except Error Transformation :=
  t.setVariable name ("!" ++ ":".intercalate values ++ "!")

/-- Assignments to variables, which keep their order. -/
def setAssignments (t : Transformation) (expressions : List Expression) : Transformation :=
  t.add Parameter.assignments.name (.assignments expressions)

/-! ## Images -/

def setAspectRatio (t : Transformation) (numerator denominator : Nat) : Transformation :=
  t.set .aspectRatio (Nat.repr numerator ++ ":" ++ Nat.repr denominator)

def setBorder (t : Transformation) (width : Nat) (color : String) : Transformation :=
  t.set .border (Nat.repr width ++ "px_solid_" ++ colorText color)

def setEffect (t : Transformation) (effect argument : String) : Transformation :=
  t.set .effect (effect ++ ":" ++ argument)

def setCorners (t : Transformation) (radius : Radius) : Transformation := t.set .radius radius.text

def setOverlay (t : Transformation) (l : Layer) : Transformation := t.add Parameter.overlay.name (.layer l)

def setUnderlay (t : Transformation) (l : Layer) : Transformation := t.add Parameter.underlay.name (.layer l)

def setFunction (t : Transformation) (f : CustomFunction) : Transformation := t.set .customFunction f.render

/-- A function that runs before all else. -/
def setPreFunction (t : Transformation) (f : CustomFunction) : Transformation :=
  t.set .customFunction ("pre:" ++ f.render)

/-- References to transformations that are kept under a name. -/
def setNamed (t : Transformation) (names : List String) : Transformation := t.setList .named names

def setResponsive (t : Transformation) (responsive : Bool) : Transformation :=
  t.set .responsiveWidth (boolText responsive)

/-! ## Videos -/

/-- The first two values are the start and the end. -/
def setOffsetRange (t : Transformation) (values : List String) : Except Error Transformation := do
  checkOffsetCount values.length
  return t.setList .offset values

def setVideoCodec (t : Transformation) (codec : Codec) : Transformation :=
  t.add Parameter.videoCodec.name (.codec codec)

def setFpsRange (t : Transformation) (low high : String) : Transformation := t.set .fps (low ++ "-" ++ high)

def setKeyframeInterval (t : Transformation) (interval : Binary64) : Except Error Transformation := do
  checkInterval interval
  return t.set .keyframeInterval interval.twoPlaces

def setKeyframeIntervalText (t : Transformation) (interval : String) : Except Error Transformation := do
  checkIntervalText interval
  return t.set .keyframeInterval interval

end Transformation

end DeliveryPath
