import DeliveryPath.Proofs.ComponentOrder
import DeliveryPath.Proofs.Reading

/-!
# What does not show

A transformation renders the same without the parameters that no one notices (`render_keeping`). Those are the
parameters under keys that nothing reads and the empty ones, user variables apart: these show whatever they hold,
even if it is nothing (`render_omits`).
-/

namespace DeliveryPath

namespace Segment

/-- Some of the parameters. -/
def keeping (keep : String → Value → Bool) (s : Segment) : Segment :=
  { s with parameters := s.parameters.filter fun p => keep p.1 p.2 }

/-- User variables are kept, and so is what a parameter notices. -/
structure KeepsNoticed (keep : String → Value → Bool) : Prop where
  userVariable (name : String) (v : Value) : isVariableName name = true → keep name v = true
  parameter (p : Parameter) (v : Value) : p.ignores v = false → keep p.name v = true

section
variable {keep : String → Value → Bool} (hk : KeepsNoticed keep) {s : Segment}
include hk

theorem noticed?_keeping (hd : s.DistinctKeys) (p : Parameter) : (s.keeping keep).noticed? p = s.noticed? p := by
  have hget : (s.keeping keep).get? p.name = (s.get? p.name).filter (keep p.name) := valueAt?_filter keep p.name hd
  unfold noticed?
  rw [hget]
  cases s.get? p.name with
  | none => rfl
  | some v =>
    cases hv : p.ignores v with
    | false => simp [Option.filter, hk.parameter p v hv]
    | true => cases hkeep : keep p.name v <;> simp [Option.filter, hv, hkeep]

theorem filter_isVariableName_keeping :
    (s.keeping keep).parameters.filter (isVariableName ·.1) = s.parameters.filter (isVariableName ·.1) := by
  unfold keeping
  rw [List.filter_filter]
  refine List.filter_congr fun p _ => ?_
  cases hp : isVariableName p.1 with
  | false => rfl
  | true => rw [hk.userVariable p.1 p.2 hp]; rfl

theorem render_keeping (hd : s.DistinctKeys) (c : RenderContext) : (s.keeping keep).render c = s.render c := by
  have hv := filter_isVariableName_keeping hk (s := s)
  refine render_congr (noticed?_keeping hk hd) ?_ (failure?_congr (noticed?_keeping hk hd) hv) rfl rfl c
  unfold userVariables
  rw [hv]

end

theorem definition_mem_components {s : Segment} (hd : s.DistinctKeys) {name : String} {v : Value}
    (hname : isVariableName name = true) (hv : s.get? name = some v) (hr : v.render = .ok "") (c : RenderContext) :
    .definition name "" ∈ s.components c := by
  have hempty : normalize "" = "" := by cbv
  have htext : v.text = "" := by rw [Value.text, hr]; rfl
  refine (definition_mem_components_iff hd).mpr ⟨hname, v, hv, ?_⟩
  rw [htext, hempty]

end Segment

namespace Transformation

/-- Some of the parameters of every segment. -/
def keeping (keep : String → Value → Bool) (t : Transformation) : Transformation := t.mapSegments (Segment.keeping keep)

theorem render_keeping {keep : String → Value → Bool} (hk : Segment.KeepsNoticed keep) {t : Transformation}
    (ht : Reachable t) (d : Defaults) : (t.keeping keep).render d = t.render d := by
  refine renderIn_mapSegments _ fun s hs => ?_
  exact Segment.render_keeping hk ((reachable_iff_built.mp ht).distinctKeys s hs) d.context

end Transformation

/-! ## Parameters that can show -/

/-- Whether a parameter of a segment can show: a user variable can, and another one if its key is read and its value
is not empty. -/
def canShow (key : String) (v : Value) : Bool :=
  isVariableName key || ((Parameter.rendered ++ Parameter.readOtherwise).any (·.name = key) && !v.isEmpty)

theorem keepsNoticed_canShow : Segment.KeepsNoticed canShow where
  userVariable name v h := by rw [canShow, h, Bool.true_or]
  parameter p v h := by
    have hread : (Parameter.rendered ++ Parameter.readOtherwise).any (·.name = p.name) = true := by
      rw [List.any_eq_true]
      exact ⟨p, List.mem_append.mpr p.mem_rendered_or, decide_eq_true rfl⟩
    have hempty : v.isEmpty = false := by
      cases hv : v.isEmpty with
      | false => rfl
      | true => rw [p.ignores_of_isEmpty hv] at h; cases h
    rw [canShow, hread, hempty]
    exact Bool.or_true _

namespace Transformation

/-- Every segment is found in the path. -/
theorem exists_of_pathOf_ok {c : RenderContext} {segments : List Segment} {path : String}
    (h : pathOf c segments = .ok path) {s : Segment} (hs : s ∈ segments) : ∃ earlier r later,
      s.render c = .ok r ∧ path = joinPaths [earlier, r.path, later] := by
  obtain ⟨before, after, rfl⟩ := List.append_of_mem hs
  rw [← List.singleton_append, pathOf_append, pathOf_append, pathOf_singleton] at h
  cases hb : pathOf c before with
  | error e => rw [hb] at h; cases h
  | ok earlier =>
    cases hr : s.render c with
    | error e => rw [hb, hr] at h; cases h
    | ok r =>
      cases ha : pathOf c after with
      | error e => rw [hb, hr, ha] at h; cases h
      | ok later =>
        rw [hb, hr, ha] at h
        cases h
        exact ⟨earlier, r, later, rfl, (joinPaths_cons earlier [r.path, later]).symm⟩

/-- Without the parameters that cannot show a transformation renders the same. A user variable that holds nothing is
kept, and its name with an underscore is among the components that the path shows. -/
theorem render_omits {t : Transformation} (ht : Reachable t) (d : Defaults) :
    (t.keeping canShow).render d = t.render d ∧
    ∀ s ∈ t.segments, ∀ name v, isVariableName name = true → s.get? name = some v → v.render = .ok "" →
      (s.keeping canShow).get? name = some v ∧
      name ++ "_" ∈ (s.components d.context).map Component.text ∧
      ∀ r, t.render d = .ok r → ∃ earlier follows later, r.path =
        joinPaths [earlier, ",".intercalate ((s.components d.context).map Component.text), follows, later] := by
  refine ⟨render_keeping keepsNoticed_canShow ht d, ?_⟩
  intro s hs name v hname hv hempty
  have hd := (reachable_iff_built.mp ht).distinctKeys s hs
  refine ⟨?_, ?_, ?_⟩
  · have hget : (s.keeping canShow).get? name = (s.get? name).filter (canShow name) := valueAt?_filter canShow name hd
    rw [hget, hv, Option.filter_some, if_pos (keepsNoticed_canShow.userVariable name v hname)]
  · have htext : (Component.definition name "").text = name ++ "_" := String.append_empty
    rw [← htext]
    exact List.mem_map_of_mem (Segment.definition_mem_components hd hname hv hempty d.context)
  · intro r h
    have hpath := map_path_renderIn d.context t
    rw [Transformation.render] at h
    rw [h] at hpath
    obtain ⟨earlier, own, later, hown, hjoin⟩ := exists_of_pathOf_ok hpath.symm hs
    obtain ⟨-, follows, -, hshown⟩ := Segment.render_eq_ok hown
    exact ⟨earlier, follows, later, by rw [hjoin, hshown, joinPaths_cons, ← joinPaths_concat, ← joinPaths_cons]; rfl⟩

/-- A key that nothing reads, an empty parameter and a user variable that holds nothing. -/
def sparseSegment : Transformation :=
  ofParameters [("colour", .scalar "red"), ("crop", .scalar ""), ("$size", .scalar ""), ("width", .scalar "50")]

theorem render_omits_sparseSegment : Reachable sparseSegment ∧ sparseSegment.current ∈ sparseSegment.segments ∧
    (sparseSegment.keeping canShow).current.parameters.map Prod.fst = ["$size", "width"] ∧
    (sparseSegment.keeping canShow).render {} = sparseSegment.render {} ∧
    sparseSegment.render {} = .ok ⟨"$size_,w_50", some "50", none, false, false⟩ ∧
    "$size_" ∈ (sparseSegment.current.components ({} : Defaults).context).map Component.text := by
  have ht : Reachable sparseSegment := .ofParameters _
  have hs := current_mem_segments sparseSegment
  obtain ⟨hrender, hempty⟩ := render_omits ht {}
  obtain ⟨-, hshown, -⟩ := hempty _ hs "$size" (.scalar "") (by decide +kernel) rfl rfl
  exact ⟨ht, hs, by decide +kernel, hrender, by decide +kernel, hshown⟩

end Transformation

end DeliveryPath
