import DeliveryPath.Json.Token

/-!
# Reading JSON

A document is read token by token. What has been opened and not yet closed is kept as a stack of frames, each
with the values that stand in it so far.
-/

namespace DeliveryPath

/-- An open bracket or brace with what has been read in it, the last first. -/
inductive JsonFrame where
  | array (items : List Json)
  | object (fields : List (String × Json)) (key : String)

/-- What may come next. -/
inductive JsonState where
  /-- A value. -/
  | value (frames : List JsonFrame)
  /-- The first value of an array, or its end. -/
  | arrayStart (frames : List JsonFrame)
  /-- The first key of an object, or its end. -/
  | objectStart (frames : List JsonFrame)
  /-- A key of an object with the given fields. -/
  | key (fields : List (String × Json)) (frames : List JsonFrame)
  /-- The colon after a key. -/
  | colon (fields : List (String × Json)) (key : String) (frames : List JsonFrame)
  /-- A value is complete; the innermost frame goes on or ends, or else the document does. -/
  | after (value : Json) (frames : List JsonFrame)

namespace JsonState

/-- How many brackets and braces may be open at once. -/
def maxDepth : Nat := 127

/-- The beginning of a value. -/
def enter? (token : JsonToken) (frames : List JsonFrame) : Option JsonState :=
  match token with
  | .scalar v => some (after v frames)
  | .openArray => if frames.length < maxDepth then some (arrayStart frames) else none
  | .openObject => if frames.length < maxDepth then some (objectStart frames) else none
  | _ => none

def step? (state : JsonState) (token : JsonToken) : Option JsonState :=
  match state, token with
  | value frames, token => enter? token frames
  | arrayStart frames, .closeArray => some (after (.array []) frames)
  | arrayStart frames, token => enter? token (.array [] :: frames)
  | objectStart frames, .closeObject => some (after (.object []) frames)
  | objectStart frames, .scalar (.string k) => some (colon [] k frames)
  | key fields frames, .scalar (.string k) => some (colon fields k frames)
  | colon fields k frames, .colon => some (value (.object fields k :: frames))
  | after v (.array items :: frames), .comma => some (value (.array (v :: items) :: frames))
  | after v (.array items :: frames), .closeArray => some (after (.array (v :: items).reverse) frames)
  | after v (.object fields k :: frames), .comma => some (key ((k, v) :: fields) frames)
  | after v (.object fields k :: frames), .closeObject => some (after (.object ((k, v) :: fields).reverse) frames)
  | _, _ => none

/-- The document, if it is complete. -/
def finish? : JsonState → Option Json
  | after v [] => some v
  | _ => none

end JsonState

/-- The document that a text spells; nothing if the text is not JSON. -/
def Json.parse? (text : String) : Option Json := do
  let tokens ← JsonToken.readAll? text.toList
  let state ← tokens.foldlM JsonState.step? (JsonState.value [])
  state.finish?

end DeliveryPath
