import DeliveryPath.Proofs.Flattening

/-!
# What rendering reads

A value counts as absent if it is empty, or if it is a layer under a parameter that takes none. Where all parameters
of two segments notice the same values, the segments render alike, apart from their user variables and the sizes set
for an image tag (`Segment.render_congr`).
-/

namespace DeliveryPath

namespace Parameter

/-- The parameters whose values are rendered. -/
def rendered : List Parameter :=
  [width, height, size, angle, crop, background, color, dpr, startOffset, endOffset, duration, aspectRatio, effect,
   flags, opacity, quality, radius, named, x, y, zoom, customFunction, condition, assignments, rawTransformation]
    ++ verbatim.map (·.2)

def readOtherwise : List Parameter := [offset, videoCodec, responsiveWidth]

theorem mem_rendered_or (p : Parameter) : p ∈ rendered ∨ p ∈ readOtherwise := by
  cases p <;> decide

/-- Whether a value counts as absent under a parameter. -/
def ignores (p : Parameter) : Value → Bool
  | .layer _ => readOtherwise.contains p
  | v => v.isEmpty

theorem ignores_of_isEmpty (p : Parameter) {v : Value} (h : v.isEmpty = true) : p.ignores v = true := by
  cases v with
  | layer l => cases h
  | _ => exact h

theorem ignores_of_mem_rendered {p : Parameter} (hp : p ∈ rendered) (v : Value) : p.ignores v = v.isEmpty := by
  cases v with
  | layer l =>
    have hall : ∀ p ∈ rendered, readOtherwise.contains p = false := by decide
    exact hall p hp
  | _ => rfl

end Parameter

theorem Value.failure?_of_isEmpty {v : Value} (h : v.isEmpty = true) : v.failure? = none := by
  cases v with
  | layer l => cases h
  | _ => rfl

/-- The start and the end of a clip that a value gives. -/
def Value.combinedOffset? : Value → Option (String × String)
  | scalar range => clipRange? range
  | list (start :: stop :: _) => some (start, stop)
  | _ => none

section
variable {α β γ : Type}

theorem findSome?_filterMap {f : α → Option β} {g : β → Option γ} : ∀ as : List α,
    (as.filterMap f).findSome? g = as.findSome? fun a => (f a).bind g
  | [] => rfl
  | a :: as => by
    have ih := findSome?_filterMap (f := f) (g := g) as
    cases ha : f a with
    | none => simp [ha, ih]
    | some b => simp [ha, List.findSome?_cons, ih]

theorem findSome?_congr {f g : α → Option β} : ∀ {as : List α}, (∀ a ∈ as, f a = g a) →
    as.findSome? f = as.findSome? g
  | [], _ => rfl
  | a :: as, h => by
    rw [List.forall_mem_cons] at h
    rw [List.findSome?_cons, List.findSome?_cons, h.1, findSome?_congr h.2]

end

namespace Segment

/-- The value of a parameter, unless it counts as absent. -/
def noticed? (s : Segment) (p : Parameter) : Option Value := (s.get? p.name).filter (!p.ignores ·)

/-! ## Reading one parameter -/

theorem bind_noticed? {β : Type} {f : Value → Option β} {p : Parameter} (hf : ∀ v, p.ignores v = true → f v = none)
    (s : Segment) : (s.noticed? p).bind f = (s.get? p.name).bind f := by
  unfold noticed?
  cases s.get? p.name with
  | none => rfl
  | some v => cases hv : p.ignores v <;> simp [Option.filter, hv, hf v]

theorem text?_eq {p : Parameter} (hp : p ∈ Parameter.rendered) (s : Segment) :
    s.text? p = (s.noticed? p).bind fun v => given (some v.text) := by
  unfold text? noticed?
  simp only [Parameter.ignores_of_mem_rendered hp]

theorem has_eq {p : Parameter} (hp : p ∈ Parameter.rendered) (s : Segment) : s.has p = (s.noticed? p).isSome := by
  unfold has noticed?
  simp only [Parameter.ignores_of_mem_rendered hp, Option.isSome_filter]

theorem failure?_get? {p : Parameter} (hp : p ∈ Parameter.rendered) (s : Segment) :
    (s.get? p.name).bind Value.failure? = (s.noticed? p).bind Value.failure? := by
  refine (bind_noticed? (fun v hv => ?_) s).symm
  rw [Parameter.ignores_of_mem_rendered hp] at hv
  exact Value.failure?_of_isEmpty hv

theorem isResponsive_eq (c : RenderContext) (s : Segment) : s.isResponsive c =
    ((s.noticed? .responsiveWidth).bind fun v => v.scalar?.bind readBool?).getD c.responsive := by
  rw [bind_noticed?, isResponsive, scalar?, Option.bind_assoc]
  intro v hv
  cases v with
  | scalar text =>
    have ht : text = "" := of_decide_eq_true hv
    rw [ht]; rfl
  | _ => rfl

theorem videoCodec?_eq (s : Segment) : s.videoCodec? = (s.noticed? .videoCodec).bind Value.videoCodec? := by
  rw [bind_noticed?, videoCodec?]
  intro v hv
  cases v with
  | scalar text =>
    have ht : text = "" := of_decide_eq_true hv
    rw [ht]; rfl
  | codec c =>
    have hc : c.name = none := Option.isNone_iff_eq_none.mp hv
    simp [Value.videoCodec?, Codec.render, hc, given]
  | _ => rfl

theorem combinedOffset?_eq_bind (s : Segment) :
    s.combinedOffset? = (s.get? Parameter.offset.name).bind Value.combinedOffset? := by
  unfold combinedOffset?
  cases s.get? Parameter.offset.name with
  | none => rfl
  | some v =>
    cases v with
    | list items =>
      match items with
      | [] => rfl
      | [_] => rfl
      | _ :: _ :: _ => rfl
    | _ => rfl

theorem combinedOffset?_eq (s : Segment) :
    s.combinedOffset? = (s.noticed? .offset).bind Value.combinedOffset? := by
  rw [combinedOffset?_eq_bind, bind_noticed?]
  intro v hv
  cases v with
  | scalar text =>
    have ht : text = "" := of_decide_eq_true hv
    rw [ht]; rfl
  | list items =>
    have hi : items = [] := List.isEmpty_iff.mp hv
    rw [hi]; rfl
  | _ => rfl

/-! ## Reading a segment -/

section
variable {s u : Segment} (h : ∀ p, p ≠ .condition → s.noticed? p = u.noticed? p)
include h

theorem text?_congr {p : Parameter} (hp : p ∈ Parameter.rendered) (hc : p ≠ .condition) : s.text? p = u.text? p := by
  rw [text?_eq hp, text?_eq hp, h p hc]

theorem has_congr {p : Parameter} (hp : p ∈ Parameter.rendered) (hc : p ≠ .condition) : s.has p = u.has p := by
  rw [has_eq hp, has_eq hp, h p hc]

theorem isResponsive_congr (c : RenderContext) : s.isResponsive c = u.isResponsive c := by
  rw [isResponsive_eq, isResponsive_eq, h _ (by decide)]

theorem combinedSize?_congr : s.combinedSize? = u.combinedSize? := by
  unfold combinedSize?
  rw [text?_congr h (by decide) (by decide)]

theorem width?_congr : s.width? = u.width? := by
  unfold width?
  rw [combinedSize?_congr h, text?_congr h (by decide) (by decide)]

theorem height?_congr : s.height? = u.height? := by
  unfold height?
  rw [combinedSize?_congr h, text?_congr h (by decide) (by decide)]

theorem dpr?_congr (c : RenderContext) : s.dpr? c = u.dpr? c := by
  unfold dpr?
  rw [text?_congr h (by decide) (by decide)]

theorem hidesSize_congr (c : RenderContext) : s.hidesSize c = u.hidesSize c := by
  unfold hidesSize
  rw [isResponsive_congr h]
  simp (disch := decide) only [text?_congr h, has_congr h]

theorem expressions_congr (c : RenderContext) : s.expressions c = u.expressions c := by
  have hoffset : s.combinedOffset? = u.combinedOffset? := by
    rw [combinedOffset?_eq, combinedOffset?_eq, h _ (by decide)]
  have hcodec : s.videoCodec? = u.videoCodec? := by
    rw [videoCodec?_eq, videoCodec?_eq, h _ (by decide)]
  unfold expressions startOffset? endOffset? duration?
  rw [hoffset, hcodec, width?_congr h, height?_congr h, dpr?_congr h]
  simp (disch := decide) only [text?_congr h]

theorem copies_congr : s.copies = u.copies := by
  have hverbatim : ∀ entry ∈ Parameter.verbatim, entry.2 ∈ Parameter.rendered ∧ entry.2 ≠ .condition := by decide
  unfold copies
  rw [text?_congr h (by decide) (by decide)]
  refine congrArg _ (List.map_congr_left fun entry he => ?_)
  rw [text?_congr h (hverbatim entry he).1 (hverbatim entry he).2]

theorem table_congr (c : RenderContext) : s.table c = u.table c := by
  unfold table
  rw [expressions_congr h, copies_congr h]

end

/-- Two segments fail alike if their parameters and their user variables do. -/
theorem failure?_eq_of_failures {s u : Segment} (h : ∀ p ∈ Parameter.rendered,
      (s.get? p.name).bind Value.failure? = (u.get? p.name).bind Value.failure?)
    (hv : s.parameters.filter (isVariableName ·.1) = u.parameters.filter (isVariableName ·.1)) :
    s.failure? = u.failure? := by
  have hparameters : ∀ ps : List Parameter, (∀ p ∈ ps, p ∈ Parameter.rendered) →
      (ps.filterMap (s.get? ·.name)).findSome? Value.failure? =
        (ps.filterMap (u.get? ·.name)).findSome? Value.failure? := by
    intro ps hps
    rw [findSome?_filterMap, findSome?_filterMap]
    exact findSome?_congr fun p hp => h p (hps p hp)
  unfold failure? valuesRead
  rw [List.findSome?_append, List.findSome?_append, List.findSome?_append, List.findSome?_append, hv,
    hparameters readFirst (by decide), hparameters [.assignments, .rawTransformation] (by decide)]

section
variable {s u : Segment} (h : ∀ p, s.noticed? p = u.noticed? p)
include h

theorem components_congr (hv : s.userVariables = u.userVariables) (c : RenderContext) :
    s.components c = u.components c := by
  have htext : ∀ p ∈ Parameter.rendered, s.text? p = u.text? p := by
    intro p hp
    rw [text?_eq hp, text?_eq hp, h p]
  unfold components
  rw [htext .condition (by decide), htext .assignments (by decide), htext .rawTransformation (by decide), hv,
    table_congr fun p _ => h p]

theorem failure?_congr
    (hv : s.parameters.filter (isVariableName ·.1) = u.parameters.filter (isVariableName ·.1)) :
    s.failure? = u.failure? := by
  refine failure?_eq_of_failures (fun p hp => ?_) hv
  rw [failure?_get? hp, failure?_get? hp, h p]

theorem render_congr (hv : s.userVariables = u.userVariables) (hf : s.failure? = u.failure?)
    (hw : s.htmlWidth = u.htmlWidth) (hh : s.htmlHeight = u.htmlHeight) (c : RenderContext) :
    s.render c = u.render c := by
  have h' : ∀ p, p ≠ .condition → s.noticed? p = u.noticed? p := fun p _ => h p
  unfold render htmlWidth? htmlHeight? isHiDpi isAutoWidth
  rw [components_congr h hv, hf, hw, hh, isResponsive_congr h', hidesSize_congr h', dpr?_congr h', width?_congr h',
    height?_congr h']

end

end Segment

/-! ## All segments of a transformation -/

namespace Transformation

mutual

/-- The same tree with other segments. -/
def mapSegments (f : Segment → Segment) : Transformation → Transformation
  | ⟨chained, current⟩ => ⟨mapChain f chained, f current⟩

def mapChain (f : Segment → Segment) : List Transformation → List Transformation
  | [] => []
  | t :: ts => mapSegments f t :: mapChain f ts

end

section
variable (f : Segment → Segment)

mutual

theorem segments_mapSegments : ∀ t : Transformation, (t.mapSegments f).segments = t.segments.map f
  | ⟨chained, current⟩ => by
    rw [mapSegments, segments, segments, segmentsOfChain_mapChain chained, List.map_append, List.map_singleton]

theorem segmentsOfChain_mapChain : ∀ ts : List Transformation,
    segmentsOfChain (mapChain f ts) = (segmentsOfChain ts).map f
  | [] => rfl
  | t :: ts => by
    rw [mapChain, segmentsOfChain, segmentsOfChain, segments_mapSegments t, segmentsOfChain_mapChain ts,
      List.map_append]

end

theorem pathOf_map {c : RenderContext} : ∀ {segments : List Segment}, (∀ s ∈ segments, (f s).render c = s.render c) →
    pathOf c (segments.map f) = pathOf c segments
  | [], _ => rfl
  | s :: segments, h => by
    rw [List.forall_mem_cons] at h
    have ih := pathOf_map h.2
    rw [List.map_cons, ← List.singleton_append, ← List.singleton_append (l := segments), pathOf_append, pathOf_append,
      pathOf_singleton, pathOf_singleton, h.1, ih]

theorem renderIn_mapSegments {c : RenderContext} {t : Transformation}
    (h : ∀ s ∈ t.segments, (f s).render c = s.render c) : (t.mapSegments f).renderIn c = t.renderIn c := by
  obtain ⟨chained, current⟩ := t
  rw [forall_segments_iff] at h
  have hchain : segmentsOfChain (mapSegments f ⟨chained, current⟩).chained = (segmentsOfChain chained).map f :=
    segmentsOfChain_mapChain f chained
  have hcurrent : (mapSegments f ⟨chained, current⟩).current.render c = current.render c := h.2
  rw [renderIn_eq, renderIn_eq, hchain, pathOf_map f h.1, hcurrent]

end

end Transformation

end DeliveryPath
