import DeliveryPath.Text.Cut

/-!
# Video codecs
-/

namespace DeliveryPath

/-- A codec, a profile of it, and a level of the profile. -/
structure Codec where
  name : Option String := none
  profile : Option String := none
  level : Option String := none
deriving DecidableEq

/-- The parts from the codec on as far as each is given, joined by colons: a level counts only with a profile,
and nothing counts without a codec. -/
def Codec.render (c : Codec) : Option String :=
  (given c.name).map fun name =>
    match given c.profile, given c.level with
    | some profile, some level => name ++ ":" ++ profile ++ ":" ++ level
    | some profile, none => name ++ ":" ++ profile
    | none, _ => name

end DeliveryPath
