import DeliveryPath.Render.Segment

/-!
# Transformations in a path

The path of a transformation is that of its earlier segments, one after the other, and then that of the open one.
Everything else about the result is decided by the open segment alone.
-/

namespace DeliveryPath

namespace Transformation

mutual

def renderIn (c : RenderContext) : Transformation → Except Error Rendered
  | ⟨chained, current⟩ => do
    let paths ← pathsIn c chained
    let own ← current.render c
    return { own with path := joinPaths (paths ++ [own.path]) }

/-- The paths of the members of a chain. -/
def pathsIn (c : RenderContext) : List Transformation → Except Error (List String)
  | [] => .ok []
  | t :: ts => do
    let rendered ← renderIn c t
    return rendered.path :: (← pathsIn c ts)

end

/-- The path where nothing is taken over from elsewhere. -/
def generate (t : Transformation) : Except Error String := (t.renderIn {}).map Rendered.path

end Transformation

/-! ## Defaults -/

/-- What segments take over where they do not say themselves. -/
structure Defaults where
  dpr : Option String := none
  responsive : Bool := false
  /-- What follows every responsive segment. -/
  responsiveWidth : Transformation := Transformation.empty.set .rawTransformation usualResponsivePath

/-- The responsive transformation is itself rendered without defaults. -/
def Defaults.context (d : Defaults) : RenderContext :=
  { dpr := d.dpr, responsive := d.responsive, responsivePath := d.responsiveWidth.generate }

def Transformation.render (d : Defaults) (t : Transformation) : Except Error Rendered := t.renderIn d.context

end DeliveryPath
