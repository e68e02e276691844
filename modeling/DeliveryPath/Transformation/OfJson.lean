import DeliveryPath.Json.Basic
import DeliveryPath.Transformation.Setters

/-!
# Transformations from documents

An object is a segment, its fields the parameters by ascending key; an array is a chain. Fields that are `null`
count as absent. Values are checked as the setters check their arguments, and the first offending field, in the
order of the document, is the error.
-/

namespace DeliveryPath

/-- The text of a scalar; nothing for `null`, arrays and objects. -/
def Json.scalarText? : Json → Option String
  | string s => some s
  | bool b => some (boolText b)
  | integer n => some (Int.repr n)
  | real x => some x.twoPlaces
  | _ => none

/-- A codec: an object of texts, any of which may be missing, or an array of them in order, whose first item must
be there. -/
def Codec.ofJson? : Json → Option Codec
  | .object fields => do
    let members := Json.members fields
    return {
      name := ← Json.optionalText? (valueAt? "codec" members)
      profile := ← Json.optionalText? (valueAt? "profile" members)
      level := ← Json.optionalText? (valueAt? "level" members) }
  | .array [name] => do
    return ⟨← Json.optionalText? (some name), none, none⟩
  | .array [name, profile] => do
    return ⟨← Json.optionalText? (some name), ← Json.optionalText? (some profile), none⟩
  | .array [name, profile, level] => do
    return ⟨← Json.optionalText? (some name), ← Json.optionalText? (some profile),
      ← Json.optionalText? (some level)⟩
  | _ => none

def itemOfJson (key : String) (item : Json) : Except Error String :=
  match item.scalarText? with
  | some text => .ok text
  | none => .error (.unsupportedItem key item.sort)

/-- The value of a parameter; none for `null`. Only a video codec may be an object. -/
def Value.ofJson (key : String) (value : Json) : Except Error (Option Value) :=
  match value with
  | .null => .ok none
  | .array items => (items.mapM (itemOfJson key)).map fun texts => some (list texts)
  | .object _ =>
    match (if key = Parameter.videoCodec.name then Codec.ofJson? value else none) with
    | some c => .ok (some (codec c))
    | none => .error (.unsupportedValue key .object)
  | _ => .ok (value.scalarText?.map scalar)

/-- The checks that setters make, for a parameter that comes from a document. -/
def checkParameter (key : String) (value : Value) : Except Error Unit := do
  if key.toList.head? = some '$' then checkVariableName key
  match value with
  | .list items => if key = Parameter.offset.name then checkOffsetCount items.length
  | .scalar text => if key = Parameter.keyframeInterval.name then checkIntervalText text
  | _ => return ()

def parametersOfJson : List (String × Json) → Except Error (List (String × Value))
  | [] => .ok []
  | (key, json) :: rest => do
    match ← Value.ofJson key json with
    | none => parametersOfJson rest
    | some value =>
      checkParameter key value
      return (key, value) :: (← parametersOfJson rest)

namespace Transformation

mutual

def ofJson : Json → Except Error Transformation
  | .object fields => (parametersOfJson (Json.members fields)).map ofParameters
  | .array items => (ofJsonItems items).map ofChain
  | .null => .error (.unsupportedRoot .null)
  | .bool _ => .error (.unsupportedRoot .boolean)
  | .integer _ => .error (.unsupportedRoot .number)
  | .real _ => .error (.unsupportedRoot .number)
  | .string _ => .error (.unsupportedRoot .string)

def ofJsonItems : List Json → Except Error (List Transformation)
  | [] => .ok []
  | item :: items => do
    let t ← ofJson item
    return t :: (← ofJsonItems items)

end

end Transformation

end DeliveryPath
