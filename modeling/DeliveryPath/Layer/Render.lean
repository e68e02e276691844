import DeliveryPath.Error
import DeliveryPath.Layer.OverlayText
import DeliveryPath.Text.Base64Url
import DeliveryPath.Text.Cut

/-!
# Layers in a path

A layer is written as its parts joined by colons. Fields that are empty or hold what is assumed anyway are left
out; a layer that lacks a part it cannot do without is an error.
-/

namespace DeliveryPath

namespace Layer

/-- Sets a field, unless the layer's kind fixes it. -/
def set (l : Layer) (field : LayerField) (value : String) : Except Error Layer :=
  match field with
  | .asset f => if f ∈ l.kind.locked then .error (.lockedField l.kind f) else .ok (l.put field value)
  | _ => .ok (l.put field value)

/-- The value of a field that is set and not empty. -/
def given? (l : Layer) (field : LayerField) : Option String := given (l.value field)

/-! ## Parts -/

/-- The resource type, unless it is the usual `image`. -/
def resourceType? (l : Layer) : Option String := (l.given? (.asset .resourceType)).filter (· ≠ "image")

/-- The delivery type, unless it is the usual `upload`. -/
def deliveryType? (l : Layer) : Option String := (l.given? (.asset .deliveryType)).filter (· ≠ "upload")

/-- The public id with its folders separated by colons and the format as its extension. -/
def publicId? (l : Layer) : Option String :=
  (l.given? (.asset .publicId)).map fun id =>
    let flat := String.ofList (id.toList.map fun c => if c = '/' then ':' else c)
    match l.given? (.asset .format) with
    | some format => flat ++ "." ++ format
    | none => flat

/-- A modification of the font, unless it is neutral. -/
def modifier? (l : Layer) (field : StyleField) : Option String :=
  ((l.given? (.style field)).filter (some · ≠ field.neutral?)).map (field.label ++ ·)

def modifiers (l : Layer) : List String := StyleField.modifiers.filterMap l.modifier?

/-- The style of text: family, size and modifications. It may be absent altogether, but whatever is given needs
both a family and a size. -/
def textStyle (l : Layer) : Except Error (Option String) :=
  match l.given? (.style .family), l.given? (.style .size) with
  | some family, some size => .ok (some ("_".intercalate (family :: size :: l.modifiers)))
  | some _, none => .error (.missingPart .fontSize)
  | none, some _ => .error (.missingPart .fontFamily)
  | none, none => if l.modifiers.isEmpty then .ok none else .error (.missingPart .fontFamily)

def text? (l : Layer) : Option String :=
  (l.given? .text).map fun text => String.ofList (encodeOverlayText text.toList)

def url? (l : Layer) : Option String := (l.given? .url).map Base64Url.encodeText

/-! ## The whole layer -/

/-- A part that must be there. -/
def require (part? : Option String) (part : MissingPart) : Except Error String :=
  match part? with
  | some text => .ok text
  | none => .error (.missingPart part)

def parts (l : Layer) : Except Error (List String) := do
  match l.kind with
  | .image =>
    let id ← require l.publicId? .publicId
    return l.resourceType?.toList ++ l.deliveryType?.toList ++ [id]
  | .video =>
    let id ← require l.publicId? .publicId
    return "video" :: l.deliveryType?.toList ++ [id]
  | .fetch =>
    let url ← require l.url? .url
    return l.resourceType?.toList ++ ["fetch", url]
  | .text =>
    let _ ← require (l.publicId?.or l.text?) .textOrPublicId
    let style? ← l.textStyle
    return "text" :: style?.toList ++ l.publicId?.toList ++ l.text?.toList
  | .subtitles =>
    let id ← require l.publicId? .publicId
    let style? ← l.textStyle
    return "subtitles" :: style?.toList ++ [id]

/-- The layer as the value of a parameter. -/
def render (l : Layer) : Except Error String := l.parts.map (":".intercalate ·)

end Layer

end DeliveryPath
