/-!
# Layers

A layer is something placed over or under an asset: another image or video, a remote file, or text. It is a
bag of fields, of which each kind reads those that concern it. Some kinds fix fields of the asset that they
stand for; those are locked, and stay unset.
-/

namespace DeliveryPath

/-- What a layer consists of. -/
inductive LayerKind where
  | image | text | subtitles | video | fetch
deriving DecidableEq

/-- The fields that say which asset a layer shows. -/
inductive AssetField where
  | resourceType | deliveryType | publicId | format
deriving DecidableEq

/-- The fields that say how text looks. -/
inductive StyleField where
  | family | size | weight | style | decoration | alignment | stroke | letterSpacing | lineSpacing
  | antialiasing | hinting
deriving DecidableEq

inductive LayerField where
  | asset (field : AssetField)
  | style (field : StyleField)
  | text
  | url
deriving DecidableEq

structure Layer where
  kind : LayerKind
  value : LayerField → Option String

/-- A layer with no field set. -/
def Layer.ofKind (kind : LayerKind) : Layer := ⟨kind, fun _ => none⟩

/-- A layer with one field overwritten. -/
def Layer.put (l : Layer) (field : LayerField) (value : String) : Layer :=
  { l with value := fun f => if f = field then some value else l.value f }

@[simp] theorem Layer.kind_put (l : Layer) (field : LayerField) (value : String) :
    (l.put field value).kind = l.kind := rfl

@[simp] theorem Layer.value_put (l : Layer) (field f : LayerField) (value : String) :
    (l.put field value).value f = if f = field then some value else l.value f := rfl

namespace LayerKind

def all : List LayerKind := [image, text, subtitles, video, fetch]

def name : LayerKind → String
  | image => "image"
  | text => "text"
  | subtitles => "subtitles"
  | video => "video"
  | fetch => "fetch"

/-- The fields of the asset that a kind fixes. -/
def locked : LayerKind → List AssetField
  | image => []
  | text => [.resourceType, .deliveryType, .format]
  | subtitles => [.resourceType, .deliveryType, .format]
  | video => [.resourceType]
  | fetch => [.deliveryType, .publicId, .format]

/-- The fields that a kind has, locked ones among them. -/
def hasField : LayerKind → LayerField → Bool
  | _, .asset _ => true
  | kind, .style _ => kind == text || kind == subtitles
  | kind, .text => kind == text
  | kind, .url => kind == fetch

end LayerKind

def AssetField.name : AssetField → String
  | resourceType => "resourceType"
  | deliveryType => "type"
  | publicId => "publicId"
  | format => "format"

namespace StyleField

/-- The fields that modify a font, in the order in which a path lists them. -/
def modifiers : List StyleField :=
  [weight, style, decoration, alignment, stroke, letterSpacing, lineSpacing, antialiasing, hinting]

/-- The value that leaves the font as it is. -/
def neutral? : StyleField → Option String
  | weight | style => some "normal"
  | decoration | stroke => some "none"
  | _ => none

/-- What is written before the value. -/
def label : StyleField → String
  | letterSpacing => "letter_spacing_"
  | lineSpacing => "line_spacing_"
  | antialiasing => "antialias_"
  | hinting => "hinting_"
  | _ => ""

end StyleField

end DeliveryPath
