import DeliveryPath.Binary64.Shortest
import DeliveryPath.Layer.Basic

/-!
# Errors

Everything that can be wrong with a transformation. Each constructor is one cause; the wording of the message
is in `Error.message`, and the classes that a caller tells apart are in `Error.family`.
-/

namespace DeliveryPath

/-- What a layer cannot be rendered without. -/
inductive MissingPart where
  | publicId | textOrPublicId | url | fontFamily | fontSize
deriving DecidableEq

/-- The sorts of values in a parameter document. -/
inductive JsonSort where
  | null | boolean | number | string | array | object
deriving DecidableEq

inductive Error where
  | variableName (name : String)
  /-- A radius with no corner, or with more than four. -/
  | radiusCount (count : Nat)
  | radiusBlank (position : Nat)
  /-- An offset without both a start and an end. -/
  | offsetCount (count : Nat)
  | keyframeInterval (interval : Binary64)
  | lockedField (kind : LayerKind) (field : AssetField)
  | missingPart (part : MissingPart)
  | unsupportedRoot (sort : JsonSort)
  | unsupportedValue (key : String) (sort : JsonSort)
  | unsupportedItem (key : String) (sort : JsonSort)
deriving DecidableEq

/-- How loudly an error is reported. -/
inductive Severity where
  | debug | warn
deriving DecidableEq

inductive ErrorFamily where
  | variableName | radius | range | keyframeInterval | restrictedField | missingField | unsupportedValue
deriving DecidableEq

def MissingPart.text : MissingPart → String
  | publicId => "Must supply public_id"
  | textOrPublicId => "Must supply either text or public_id"
  | url => "Must supply url"
  | fontFamily => "Must supply font_family for text style"
  | fontSize => "Must supply font_size for text style"

def JsonSort.text : JsonSort → String
  | null => "null"
  | boolean => "boolean"
  | number => "number"
  | string => "string"
  | array => "array"
  | object => "object"

def unsupportedMessage (key what : String) : String :=
  "Unsupported value for parameter '" ++ key ++ "': " ++ what

def Error.message : Error → String
  | variableName name =>
    "Invalid variable name: '" ++ name ++ "'. Variable names must match ^\\$[a-zA-Z][a-zA-Z0-9]*$"
  | radiusCount count => "Invalid radius: Radius requires 1 to 4 values, got " ++ Nat.repr count
  | radiusBlank position => "Invalid radius: Radius value at position " ++ Nat.repr position ++ " must not be empty"
  | offsetCount count => "Invalid range: offset requires a start and an end value, got " ++ Nat.repr count
  | keyframeInterval interval => "Keyframe interval must be greater than 0, got " ++ interval.shortest
  | lockedField kind field => "Cannot modify " ++ field.name ++ " for " ++ kind.name ++ " layers"
  | missingPart part => "Missing layer field: " ++ part.text
  | unsupportedRoot sort => unsupportedMessage "<root>" sort.text
  | unsupportedValue key sort => unsupportedMessage key sort.text
  | unsupportedItem key sort => unsupportedMessage key ("array of " ++ sort.text)

def Error.family : Error → ErrorFamily
  | variableName _ => .variableName
  | radiusCount _ | radiusBlank _ => .radius
  | offsetCount _ => .range
  | keyframeInterval _ => .keyframeInterval
  | lockedField .. => .restrictedField
  | missingPart _ => .missingField
  | unsupportedRoot _ | unsupportedValue .. | unsupportedItem .. => .unsupportedValue

namespace ErrorFamily

def name : ErrorFamily → String
  | variableName => "InvalidVariableName"
  | radius => "InvalidRadius"
  | range => "InvalidRange"
  | keyframeInterval => "InvalidKeyframeInterval"
  | restrictedField => "RestrictedLayerField"
  | missingField => "MissingLayerField"
  | unsupportedValue => "UnsupportedValue"

/-- The machine-readable code. -/
def code : ErrorFamily → String
  | variableName => "INVALID_VARIABLE_NAME"
  | radius => "INVALID_RADIUS"
  | range => "INVALID_RANGE"
  | keyframeInterval => "INVALID_KEYFRAME_INTERVAL"
  | restrictedField => "RESTRICTED_LAYER_FIELD"
  | missingField => "MISSING_LAYER_FIELD"
  | unsupportedValue => "UNSUPPORTED_VALUE"

/-- Arguments that do not pass a check are expected; what reaches rendering or a document unfit is not. -/
def severity : ErrorFamily → Severity
  | missingField | unsupportedValue => .warn
  | _ => .debug

/-- Whether an argument was at fault, and not the shape of a document. -/
def isInvalidArgument (family : ErrorFamily) : Bool := family != unsupportedValue

end ErrorFamily

end DeliveryPath
