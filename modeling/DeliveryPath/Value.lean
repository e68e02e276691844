import DeliveryPath.Codec
import DeliveryPath.Expression.Basic
import DeliveryPath.Layer.Render

/-!
# Values of parameters
-/

namespace DeliveryPath

inductive Value where
  /-- A single text; numbers, booleans and expressions are kept in written form. -/
  | scalar (text : String)
  | list (items : List String)
  | codec (codec : Codec)
  | layer (layer : Layer)
  | assignments (expressions : List Expression)

def boolText (b : Bool) : String := if b then "true" else "false"

/-- The boolean that a text spells, in exactly one way. -/
def readBool? (text : String) : Option Bool :=
  if text = "true" then some true else if text = "false" then some false else none

namespace Value

def scalar? : Value → Option String
  | scalar text => some text
  | _ => none

/-- The items of a list; a scalar is a list of one. -/
def items? : Value → Option (List String)
  | scalar text => some [text]
  | list items => some items
  | _ => none

/-- Values that count as absent. A layer never does, even if it cannot be rendered. -/
def isEmpty : Value → Bool
  | scalar text => text = ""
  | list items => items.isEmpty
  | codec c => c.name.isNone
  | layer _ => false
  | assignments expressions => expressions.isEmpty

/-- The value as a path shows it: list items are joined by dots, assignments by commas. Only a layer can fail. -/
def render : Value → Except Error String
  | scalar text => .ok text
  | list items => .ok (".".intercalate items)
  | codec c => .ok (c.render.getD "")
  | layer l => l.render
  | assignments expressions => .ok (",".intercalate (expressions.map Expression.serialize))

/-- The error that keeps a value from being rendered. -/
def failure? (v : Value) : Option Error :=
  match v.render with
  | .error e => some e
  | .ok _ => none

/-- The rendered value; empty if it cannot be rendered. -/
def text (v : Value) : String := v.render.toOption.getD ""

theorem render_eq_error_iff {v : Value} {e : Error} : v.render = .error e ↔ v.failure? = some e := by
  unfold failure?; cases v.render <;> simp

/-- Only a layer can fail. -/
theorem exists_layer_of_failure? {v : Value} {e : Error} (h : v.failure? = some e) :
    ∃ l, v = layer l ∧ l.render = .error e := by
  rw [← render_eq_error_iff] at h
  cases v <;> simp_all [render]

/-- The codec that a value names: a text as it is, or a structured codec. -/
def videoCodec? : Value → Option String
  | scalar text => given (some text)
  | codec c => c.render
  | _ => none

end Value

end DeliveryPath
