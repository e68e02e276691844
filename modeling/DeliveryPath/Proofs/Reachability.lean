import DeliveryPath.Proofs.Building

/-!
# Reachable transformations

Every setter checks its arguments or not, and then makes one change to the open segment, whatever the
transformation holds (`Setting.apply_eq`). A transformation is reachable if it can be made with setters, chains,
blocks, lists of parameters and documents. These are the transformations that can be built (`reachable_iff_built`).
-/

namespace DeliveryPath

/-! ## Changes of a segment -/

/-- What is set on a segment: the value under a key, or a size of the image tag. -/
inductive Slot where
  | parameter (key : String)
  | htmlWidth
  | htmlHeight
deriving DecidableEq

inductive Change where
  | parameter (key : String) (value : Value)
  | htmlWidth (width : String)
  | htmlHeight (height : String)

namespace Change

def slot : Change → Slot
  | parameter key _ => .parameter key
  | htmlWidth _ => .htmlWidth
  | htmlHeight _ => .htmlHeight

def apply (s : Segment) : Change → Segment
  | parameter key value => s.put key value
  | htmlWidth width => { s with htmlWidth := some width }
  | htmlHeight height => { s with htmlHeight := some height }

end Change

namespace Transformation

def change (t : Transformation) (c : Change) : Transformation := { t with current := c.apply t.current }

/-! ## Setters -/

inductive Setting where
  | add (key : String) (value : Value)
  | text (p : Parameter) (value : String)
  | list (p : Parameter) (items : List String)
  | htmlWidth (width : String)
  | htmlHeight (height : String)
  | condition (predicate : String)
  | conditionExpression (predicate : Expression)
  | userVariable (name value : String)
  | listVariable (name : String) (values : List String)
  | assignments (expressions : List Expression)
  | aspectRatio (numerator denominator : Nat)
  | border (width : Nat) (color : String)
  | effect (name argument : String)
  | corners (radius : Radius)
  | overlay (l : Layer)
  | underlay (l : Layer)
  | customFunction (f : CustomFunction)
  | preFunction (f : CustomFunction)
  | named (names : List String)
  | responsive (follows : Bool)
  | offsetRange (values : List String)
  | videoCodec (codec : Codec)
  | fpsRange (low high : String)
  | keyframeInterval (interval : Binary64)
  | keyframeIntervalText (interval : String)

namespace Setting

def apply (t : Transformation) : Setting → Except Error Transformation
  | add key value => .ok (t.add key value)
  | text p value => .ok (t.set p value)
  | list p items => .ok (t.setList p items)
  | htmlWidth width => .ok (t.setHtmlWidth width)
  | htmlHeight height => .ok (t.setHtmlHeight height)
  | condition predicate => .ok (t.ifCondition predicate)
  | conditionExpression predicate => .ok (t.ifExpression predicate)
  | userVariable name value => t.setVariable name value
  | listVariable name values => t.setListVariable name values
  | assignments expressions => .ok (t.setAssignments expressions)
  | aspectRatio numerator denominator => .ok (t.setAspectRatio numerator denominator)
  | border width color => .ok (t.setBorder width color)
  | effect name argument => .ok (t.setEffect name argument)
  | corners radius => .ok (t.setCorners radius)
  | overlay l => .ok (t.setOverlay l)
  | underlay l => .ok (t.setUnderlay l)
  | customFunction f => .ok (t.setFunction f)
  | preFunction f => .ok (t.setPreFunction f)
  | named names => .ok (t.setNamed names)
  | responsive follows => .ok (t.setResponsive follows)
  | offsetRange values => t.setOffsetRange values
  | videoCodec codec => .ok (t.setVideoCodec codec)
  | fpsRange low high => .ok (t.setFpsRange low high)
  | keyframeInterval interval => t.setKeyframeInterval interval
  | keyframeIntervalText interval => t.setKeyframeIntervalText interval

/-- What must hold of the arguments. -/
def check : Setting → Except Error Unit
  | userVariable name _ | listVariable name _ => checkVariableName name
  | offsetRange values => checkOffsetCount values.length
  | keyframeInterval interval => checkInterval interval
  | keyframeIntervalText interval => checkIntervalText interval
  | _ => .ok ()

def change : Setting → Change
  | add key value => .parameter key value
  | text p value => .parameter p.name (.scalar value)
  | list p items => .parameter p.name (.list items)
  | htmlWidth width => .htmlWidth width
  | htmlHeight height => .htmlHeight height
  | condition predicate => .parameter Parameter.condition.name (.scalar predicate)
  | conditionExpression predicate => .parameter Parameter.condition.name (.scalar predicate.serialize)
  | userVariable name value => .parameter name (.scalar value)
  | listVariable name values => .parameter name (.scalar ("!" ++ ":".intercalate values ++ "!"))
  | assignments expressions => .parameter Parameter.assignments.name (.assignments expressions)
  | aspectRatio numerator denominator =>
    .parameter Parameter.aspectRatio.name (.scalar (Nat.repr numerator ++ ":" ++ Nat.repr denominator))
  | border width color =>
    .parameter Parameter.border.name (.scalar (Nat.repr width ++ "px_solid_" ++ colorText color))
  | effect name argument => .parameter Parameter.effect.name (.scalar (name ++ ":" ++ argument))
  | corners radius => .parameter Parameter.radius.name (.scalar radius.text)
  | overlay l => .parameter Parameter.overlay.name (.layer l)
  | underlay l => .parameter Parameter.underlay.name (.layer l)
  | customFunction f => .parameter Parameter.customFunction.name (.scalar f.render)
  | preFunction f => .parameter Parameter.customFunction.name (.scalar ("pre:" ++ f.render))
  | named names => .parameter Parameter.named.name (.list names)
  | responsive follows => .parameter Parameter.responsiveWidth.name (.scalar (boolText follows))
  | offsetRange values => .parameter Parameter.offset.name (.list values)
  | videoCodec codec => .parameter Parameter.videoCodec.name (.codec codec)
  | fpsRange low high => .parameter Parameter.fps.name (.scalar (low ++ "-" ++ high))
  | keyframeInterval interval => .parameter Parameter.keyframeInterval.name (.scalar interval.twoPlaces)
  | keyframeIntervalText interval => .parameter Parameter.keyframeInterval.name (.scalar interval)

/-- What a setter changes does not depend on the transformation. -/
theorem apply_eq (s : Setting) (t : Transformation) :
    s.apply t = s.check.map fun _ => t.change s.change := by
  have hcheck : ∀ (check : Except Error Unit) (u : Transformation),
      (do check; return u) = check.map fun _ => u := by
    intro check u
    cases check <;> rfl
  cases s with
  | userVariable name value => exact hcheck _ _
  | listVariable name values => exact hcheck _ _
  | offsetRange values => exact hcheck _ _
  | keyframeInterval interval => exact hcheck _ _
  | keyframeIntervalText interval => exact hcheck _ _
  | _ => rfl

theorem apply_eq_ok_iff {s : Setting} {t u : Transformation} :
    s.apply t = .ok u ↔ s.check = .ok () ∧ u = t.change s.change := by
  rw [apply_eq]
  cases s.check with
  | error e => simp [Except.map]
  | ok _ => simp [Except.map, eq_comm]

end Setting

/-! ## Reachable transformations -/

inductive Reachable : Transformation → Prop
  | empty : Reachable empty
  | ofParameters (parameters) : Reachable (ofParameters parameters)
  | ofJson {json t} : ofJson json = .ok t → Reachable t
  | ofChain {ts} : (∀ t ∈ ts, Reachable t) → Reachable (ofChain ts)
  | set {t u} (s : Setting) : Reachable t → s.apply t = .ok u → Reachable u
  | chain {t} : Reachable t → Reachable t.chain
  | ifElse {t} : Reachable t → Reachable t.ifElse
  | endIf {t} : Reachable t → Reachable t.endIf

theorem Built.change {t : Transformation} (h : Built t) (c : Change) : Built (t.change c) := by
  cases c with
  | parameter key value => exact h.add key value
  | htmlWidth width => exact h.setHtmlWidth width
  | htmlHeight height => exact h.setHtmlHeight height

theorem reachable_iff_built {t : Transformation} : Reachable t ↔ Built t := by
  constructor
  · intro h
    induction h with
    | empty => exact .empty
    | ofParameters parameters => exact built_ofParameters parameters
    | ofJson h => exact built_ofJson h
    | ofChain _ ih => exact .ofChain ih
    | set s _ h ih =>
      obtain ⟨-, rfl⟩ := Setting.apply_eq_ok_iff.mp h
      exact ih.change s.change
    | chain _ ih => exact ih.chain
    | ifElse _ ih => exact ih.ifElse
    | endIf _ ih => exact ih.endIf
  · intro h
    induction h with
    | empty => exact .empty
    | ofChain _ ih => exact .ofChain ih
    | add key value _ ih => exact ih.set (.add key value) rfl
    | setHtmlWidth width _ ih => exact ih.set (.htmlWidth width) rfl
    | setHtmlHeight height _ ih => exact ih.set (.htmlHeight height) rfl
    | chain _ ih => exact ih.chain
    | endIf _ ih => exact ih.endIf

end Transformation

end DeliveryPath
