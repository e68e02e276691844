/-!
# Components and paths

A segment of a path is a list of components joined by commas, and a path is a list of segments joined by slashes.
-/

namespace DeliveryPath

inductive Component where
  | condition (text : String)
  /-- The definition of a user variable. -/
  | definition (name value : String)
  /-- Assignments to user variables, already written out. -/
  | assignments (text : String)
  /-- A parameter under its short key. -/
  | entry (key value : String)
  /-- A piece of path taken over as it is. -/
  | raw (text : String)
deriving DecidableEq

def Component.text : Component → String
  | condition text => "if_" ++ text
  | definition name value => name ++ "_" ++ value
  | assignments text => text
  | entry key value => key ++ "_" ++ value
  | raw text => text

/-- Paths one after the other; empty ones leave no trace. -/
def joinPaths (paths : List String) : String := "/".intercalate (paths.filter (· ≠ ""))

end DeliveryPath
