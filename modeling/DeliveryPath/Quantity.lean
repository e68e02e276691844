/-!
# Quantities in expressions

What an expression may ask of an asset. A quantity has a name, which people write, and a code, which a delivery
path holds.
-/

namespace DeliveryPath

inductive Quantity where
  | width | height | initialWidth | initialHeight | aspectRatio | initialAspectRatio | pageCount | faceCount
  | currentPage | tags | pageX | pageY | duration | initialDuration | illustrationScore | context
deriving DecidableEq

namespace Quantity

def all : List Quantity :=
  [width, height, initialWidth, initialHeight, aspectRatio, initialAspectRatio, pageCount, faceCount,
   currentPage, tags, pageX, pageY, duration, initialDuration, illustrationScore, context]

theorem mem_all (q : Quantity) : q ∈ all := by cases q <;> decide

def name : Quantity → String
  | width => "width"
  | height => "height"
  | initialWidth => "initial_width"
  | initialHeight => "initial_height"
  | aspectRatio => "aspect_ratio"
  | initialAspectRatio => "initial_aspect_ratio"
  | pageCount => "page_count"
  | faceCount => "face_count"
  | currentPage => "current_page"
  | tags => "tags"
  | pageX => "page_x"
  | pageY => "page_y"
  | duration => "duration"
  | initialDuration => "initial_duration"
  | illustrationScore => "illustration_score"
  | context => "context"

def code : Quantity → String
  | width => "w"
  | height => "h"
  | initialWidth => "iw"
  | initialHeight => "ih"
  | aspectRatio => "ar"
  | initialAspectRatio => "iar"
  | pageCount => "pc"
  | faceCount => "fc"
  | currentPage => "cp"
  | tags => "tags"
  | pageX => "px"
  | pageY => "py"
  | duration => "du"
  | initialDuration => "idu"
  | illustrationScore => "ils"
  | context => "ctx"

def ofName? (text : String) : Option Quantity := all.find? (·.name = text)

theorem ofName?_name (q : Quantity) : ofName? q.name = some q := by cases q <;> decide

end Quantity

end DeliveryPath
