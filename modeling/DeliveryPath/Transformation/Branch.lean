import DeliveryPath.Transformation.Basic

/-!
# Conditional blocks

A block begins with a segment that has a condition, may go on with an `else` branch, and is closed by a segment
that holds the marker `end` alone. A condition governs its own segment only, unless it stands in a segment
without other parameters: so when a block is closed that spans several segments, its markers move into
segments of their own (`isolateMarkers`).
-/

namespace DeliveryPath.Transformation

def elseMarker : String := "else"

def endMarker : String := "end"

/-- The condition or the marker that a transformation's own segment holds. -/
def marker? (t : Transformation) : Option String := t.current.scalar? Parameter.condition.name

/-- Whether the transformation begins a block: its marker is a condition. -/
def opensBlock (t : Transformation) : Bool := t.marker?.any fun m => m ≠ elseMarker && m ≠ endMarker

/-- The marker in a segment of its own, and the rest after it. A segment with nothing but the marker, or
without one, stays whole. -/
def splitMarker (t : Transformation) : List Transformation :=
  match t.current.parameters.find? (·.1 = Parameter.condition.name) with
  | some marker =>
    if t.current.parameters.length < 2 then [t]
    else
      [{ current := { parameters := [marker] } },
       { t with current := { t.current with
           parameters := t.current.parameters.eraseP (·.1 = Parameter.condition.name) } }]
  | none => [t]

/-- The segments from the last to the first, with the markers of the last block split off. Nothing, if the last
block is closed already or there is none. -/
def splitMarkersBack? : List Transformation → Option (List Transformation)
  | [] => none
  | t :: earlier =>
    match t.marker? with
    | none => (splitMarkersBack? earlier).map (t :: ·)
    | some m =>
      if m = endMarker then none
      else if m = elseMarker then (splitMarkersBack? earlier).map (t.splitMarker.reverse ++ ·)
      else some (t.splitMarker.reverse ++ earlier)

/-- The segments of a chain with the markers of its last block in segments of their own, if that block is open
and spans several segments. -/
def isolateMarkers (segments : List Transformation) : List Transformation :=
  if segments.getLast?.any opensBlock then segments
  else ((splitMarkersBack? segments.reverse).map List.reverse).getD segments

/-! ## Building blocks -/

/-- Begins a block. The condition may be in free form. -/
def ifCondition (t : Transformation) (condition : String) : Transformation :=
  t.add Parameter.condition.name (.scalar condition)

def ifExpression (t : Transformation) (condition : Expression) : Transformation := t.ifCondition condition.serialize

/-- Ends the branch and begins the other one. -/
def ifElse (t : Transformation) : Transformation := t.chain.ifCondition elseMarker

/-- Closes the block. -/
def endIf (t : Transformation) : Transformation :=
  (ifCondition { chained := isolateMarkers t.chain.chained } endMarker).chain

end DeliveryPath.Transformation
