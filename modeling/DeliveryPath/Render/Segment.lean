import DeliveryPath.Clip
import DeliveryPath.Render.Component
import DeliveryPath.Render.HtmlSize
import DeliveryPath.Render.Rendered

/-!
# Segments in a path

The components of a segment come in a fixed order: the condition, the user variables by name, the assignments,
the parameters by short key, and the raw piece of path. The order in which parameters were set does not show,
and a parameter that is empty does not either.
-/

namespace DeliveryPath

/-- The path that follows a responsive segment if nothing else is asked for. -/
def usualResponsivePath : String := "w_auto,c_limit"

/-- What a segment takes over where it does not say itself. -/
structure RenderContext where
  dpr : Option String := none
  responsive : Bool := false
  /-- The path that follows every responsive segment. -/
  responsivePath : Except Error String := .ok usualResponsivePath

namespace Segment

/-! ## Reading parameters -/

/-- The rendered value of a parameter; an empty one counts as absent. -/
def text? (s : Segment) (p : Parameter) : Option String :=
  ((s.get? p.name).filter (!·.isEmpty)).bind fun v => given (some v.text)

def has (s : Segment) (p : Parameter) : Bool := (s.get? p.name).any (!·.isEmpty)

/-- The width and the height that a combined size gives. Without an `x` it gives nothing. -/
def combinedSize? (s : Segment) : Option (String × String) :=
  (s.text? .size).bind fun size =>
    (cut? ['x'] size.toList).map fun sides => (String.ofList sides.1, String.ofList sides.2)

/-- The combined size goes before the single one, even where its half is empty. -/
def width? (s : Segment) : Option String :=
  match s.combinedSize? with
  | some (width, _) => given (some width)
  | none => s.text? .width

def height? (s : Segment) : Option String :=
  match s.combinedSize? with
  | some (_, height) => given (some height)
  | none => s.text? .height

def isResponsive (c : RenderContext) (s : Segment) : Bool :=
  ((s.scalar? Parameter.responsiveWidth.name).bind readBool?).getD c.responsive

def dpr? (c : RenderContext) (s : Segment) : Option String := (s.text? .dpr).or c.dpr

/-- The start and the end that a combined offset gives. -/
def combinedOffset? (s : Segment) : Option (String × String) :=
  match s.get? Parameter.offset.name with
  | some (.scalar range) => clipRange? range
  | some (.list (start :: stop :: _)) => some (start, stop)
  | _ => none

/-- The single offset goes before the combined one. -/
def startOffset? (s : Segment) : Option String :=
  ((s.text? .startOffset).or (s.combinedOffset?.map (·.1))).bind clipStart?

def endOffset? (s : Segment) : Option String :=
  ((s.text? .endOffset).or (s.combinedOffset?.map (·.2))).bind clipPoint?

def duration? (s : Segment) : Option String := (s.text? .duration).bind clipPoint?

def videoCodec? (s : Segment) : Option String := (s.get? Parameter.videoCodec.name).bind Value.videoCodec?

/-! ## Components -/

/-- The parameters that may hold expressions, under their short keys. -/
def expressions (c : RenderContext) (s : Segment) : List (String × Option String) :=
  [("a", s.text? .angle), ("ar", s.text? .aspectRatio), ("b", (s.text? .background).map colorText),
   ("c", s.text? .crop), ("co", (s.text? .color).map colorText), ("dpr", s.dpr? c), ("du", s.duration?),
   ("e", s.text? .effect), ("eo", s.endOffset?), ("fl", s.text? .flags), ("h", s.height?),
   ("o", s.text? .opacity), ("q", s.text? .quality), ("r", s.text? .radius), ("so", s.startOffset?),
   ("t", s.text? .named), ("vc", s.videoCodec?), ("w", s.width?), ("x", s.text? .x), ("y", s.text? .y),
   ("z", s.text? .zoom)]

/-- The parameters that are copied, under their short keys. -/
def copies (s : Segment) : List (String × Option String) :=
  ("fn", s.text? .customFunction) :: Parameter.verbatim.map fun entry => (entry.1, s.text? entry.2)

/-- All parameters with a value, by short key. Expressions are in compact form. -/
def table (c : RenderContext) (s : Segment) : List (String × String) :=
  (((s.expressions c).filterMap fun entry => entry.2.map fun value => (entry.1, normalize value)) ++
    s.copies.filterMap fun entry => entry.2.map (entry.1, ·)).mergeSort fun a b => decide (a.1 ≤ b.1)

/-- The user variables by name. One with an empty value is among them. -/
def userVariables (s : Segment) : List (String × String) :=
  ((s.parameters.filter (isVariableName ·.1)).map fun p => (p.1, normalize p.2.text)).mergeSort
    fun a b => decide (a.1 ≤ b.1)

def components (c : RenderContext) (s : Segment) : List Component :=
  ((s.text? .condition).map fun text => Component.condition (normalize text)).toList
    ++ s.userVariables.map (fun entry => .definition entry.1 entry.2)
    ++ ((s.text? .assignments).map Component.assignments).toList
    ++ (s.table c).map (fun entry => .entry entry.1 entry.2)
    ++ ((s.text? .rawTransformation).map Component.raw).toList

/-! ## Failures -/

/-- The parameters that are read before the user variables, in that order. -/
def readFirst : List Parameter :=
  [.width, .height, .size, .angle, .crop, .background, .color, .dpr, .startOffset, .endOffset, .duration,
   .aspectRatio, .effect, .flags, .opacity, .quality, .radius, .named, .x, .y, .zoom, .customFunction]
    ++ Parameter.verbatim.map (·.2) ++ [.condition]

/-- The values that are rendered, in that order. -/
def valuesRead (s : Segment) : List Value :=
  readFirst.filterMap (s.get? ·.name)
    ++ (s.parameters.filter (isVariableName ·.1)).map (·.2)
    ++ [Parameter.assignments, .rawTransformation].filterMap (s.get? ·.name)

/-- The first error among the values that are rendered. -/
def failure? (s : Segment) : Option Error := s.valuesRead.findSome? Value.failure?

/-! ## Sizes for an image tag -/

/-- Whether something in the segment makes the size of the result differ from the size asked for. -/
def hidesSize (c : RenderContext) (s : Segment) : Bool :=
  s.has .overlay || s.has .underlay || (s.text? .angle).isSome
    || s.text? .crop == some "fit" || s.text? .crop == some "limit" || s.isResponsive c

/-- The width set for the tag, or else the width of the result; neither, if a width is given and not known
beforehand. -/
def htmlWidth? (c : RenderContext) (s : Segment) : Option String :=
  match s.width? with
  | some width => if s.hidesSize c || !isStaticWidth width then none else s.htmlWidth.or (some width)
  | none => s.htmlWidth

def htmlHeight? (c : RenderContext) (s : Segment) : Option String :=
  match s.height? with
  | some height => if s.hidesSize c || !isStaticHeight height then none else s.htmlHeight.or (some height)
  | none => s.htmlHeight

/-! ## The whole segment -/

def isHiDpi (c : RenderContext) (s : Segment) : Bool :=
  (s.dpr? c).any fun dpr => dpr.toList.map Char.toLower = "auto".toList

def isAutoWidth (s : Segment) : Bool :=
  s.width?.any fun width => (dropFront? "auto".toList width.toList).isSome

def render (c : RenderContext) (s : Segment) : Except Error Rendered :=
  match s.failure? with
  | some e => .error e
  | none => do
    let own := ",".intercalate ((s.components c).map Component.text)
    let responsive ← if s.isResponsive c then c.responsivePath else .ok ""
    return {
      path := joinPaths [own, responsive]
      htmlWidth := s.htmlWidth? c
      htmlHeight := s.htmlHeight? c
      hiDpi := s.isHiDpi c
      isResponsive := s.isResponsive c || s.isAutoWidth }

end Segment

end DeliveryPath
