import DeliveryPath.Proofs.LoneParameter

/-!
# Combined parameters

An offset is a start and an end, and a size is a width and a height. Nothing but their resolution reads any of these
parameters, so segments that agree on all others render alike if they resolve alike (`AgreeOutside.render_eq`). A
combined parameter therefore renders as the two that it stands for (`clip_spellings`, `size_spellings`).
-/

namespace DeliveryPath

/-! ## What a parameter is resolved from -/

namespace Parameter

/-- The parameters that a core parameter is resolved from. -/
def sources : Parameter → List Parameter
  | width => [size, width]
  | height => [size, height]
  | startOffset => [startOffset, offset]
  | endOffset => [endOffset, offset]
  | p => [p]

/-- Parameters that are read for nothing but a resolution. -/
def combinable : List Parameter := [size, width, height, offset, startOffset, endOffset]

theorem self_mem_sources (p : Parameter) : p ∈ p.sources := by
  cases p <;> decide

end Parameter

namespace Segment

theorem text?_eq_of_get?_eq {s u : Segment} {p : Parameter} (h : s.get? p.name = u.get? p.name) :
    s.text? p = u.text? p := by
  unfold text?
  rw [h]

theorem resolved?_congr {s u : Segment} {p : Parameter} (h : ∀ q ∈ p.sources, s.get? q.name = u.get? q.name)
    (c : RenderContext) : s.resolved? c p = u.resolved? c p := by
  have htext : ∀ q ∈ p.sources, s.text? q = u.text? q := fun q hq => text?_eq_of_get?_eq (h q hq)
  have hself := htext p p.self_mem_sources
  unfold resolved?
  split
  · rw [hself]
  · rw [hself]
  · rw [dpr?, dpr?, hself]
  · rw [duration?, duration?, hself]
  · rw [endOffset?, endOffset?, hself, combinedOffset?, combinedOffset?, h .offset (by decide)]
  · rw [height?, height?, hself, combinedSize?, combinedSize?, htext .size (by decide)]
  · rw [startOffset?, startOffset?, hself, combinedOffset?, combinedOffset?, h .offset (by decide)]
  · rw [videoCodec?, videoCodec?, h .videoCodec (by decide)]
  · rw [width?, width?, hself, combinedSize?, combinedSize?, htext .size (by decide)]
  · exact hself

/-! ## Segments that agree outside some parameters -/

/-- The segments hold the same under all parameters but the given ones, and those fail alike. -/
structure AgreeOutside (ps : List Parameter) (s u : Segment) : Prop where
  get? (p : Parameter) : p ∉ ps → s.get? p.name = u.get? p.name
  failure? (p : Parameter) : p ∈ ps → (s.get? p.name).bind Value.failure? = (u.get? p.name).bind Value.failure?
  userParameters : s.parameters.filter (isVariableName ·.1) = u.parameters.filter (isVariableName ·.1)
  htmlWidth : s.htmlWidth = u.htmlWidth
  htmlHeight : s.htmlHeight = u.htmlHeight

namespace AgreeOutside
variable {ps : List Parameter} {s u v : Segment}

theorem symm (h : AgreeOutside ps s u) : AgreeOutside ps u s where
  get? p hp := (h.get? p hp).symm
  failure? p hp := (h.failure? p hp).symm
  userParameters := h.userParameters.symm
  htmlWidth := h.htmlWidth.symm
  htmlHeight := h.htmlHeight.symm

theorem trans (h : AgreeOutside ps s u) (h' : AgreeOutside ps u v) : AgreeOutside ps s v where
  get? p hp := (h.get? p hp).trans (h'.get? p hp)
  failure? p hp := (h.failure? p hp).trans (h'.failure? p hp)
  userParameters := h.userParameters.trans h'.userParameters
  htmlWidth := h.htmlWidth.trans h'.htmlWidth
  htmlHeight := h.htmlHeight.trans h'.htmlHeight

theorem failure?_eq (h : AgreeOutside ps s u) : s.failure? = u.failure? := by
  refine failure?_eq_of_failures (fun p _ => ?_) h.userParameters
  by_cases hp : p ∈ ps
  · exact h.failure? p hp
  · rw [h.get? p hp]

/-- A core parameter may resolve differently only if one of its sources may differ. -/
theorem render_eq (h : AgreeOutside ps s u) (hps : ∀ p ∈ ps, p ∈ Parameter.combinable) (c : RenderContext)
    (hresolved : ∀ p ∈ Parameter.core.map Prod.snd, (∃ q ∈ p.sources, q ∈ ps) → s.resolved? c p = u.resolved? c p) :
    s.render c = u.render c := by
  have hfree : ∀ {p : Parameter}, p ∉ Parameter.combinable → s.get? p.name = u.get? p.name :=
    fun hp => h.get? _ fun hmem => hp (hps _ hmem)
  have htext : ∀ {p : Parameter}, p ∉ Parameter.combinable → s.text? p = u.text? p :=
    fun hp => text?_eq_of_get?_eq (hfree hp)
  -- what the segments may differ in reaches a path through the core of the table only
  have hcore : ∀ p ∈ Parameter.core.map Prod.snd, s.resolved? c p = u.resolved? c p := by
    intro p hp
    by_cases hsources : ∃ q ∈ p.sources, q ∈ ps
    · exact hresolved p hp hsources
    · exact resolved?_congr (fun q hq => h.get? q fun hmem => hsources ⟨q, hq, hmem⟩) c
  have hvariables : s.userVariables = u.userVariables := by
    unfold userVariables
    rw [h.userParameters]
  have htable : s.table c = u.table c := by
    have hcopied : ∀ entry ∈ Parameter.copied, entry.2 ∉ Parameter.combinable := by decide
    have hcopies : s.copies = u.copies := by
      rw [copies_eq, copies_eq]
      exact List.map_congr_left fun entry he => by rw [htext (hcopied entry he)]
    have hexpressions : s.expressions c = u.expressions c := by
      rw [expressions_eq, expressions_eq]
      exact List.map_congr_left fun entry he => by rw [hcore entry.2 (List.mem_map_of_mem he)]
    unfold table
    rw [hcopies, hexpressions]
  have hcomponents : s.components c = u.components c := by
    unfold components
    rw [htext (p := .condition) (by decide), htext (p := .assignments) (by decide),
      htext (p := .rawTransformation) (by decide), hvariables, htable]
  have hresponsive : s.isResponsive c = u.isResponsive c := by
    unfold isResponsive scalar?
    rw [hfree (p := .responsiveWidth) (by decide)]
  have hhides : s.hidesSize c = u.hidesSize c := by
    unfold hidesSize has
    rw [hfree (p := .overlay) (by decide), hfree (p := .underlay) (by decide), htext (p := .angle) (by decide),
      htext (p := .crop) (by decide), hresponsive]
  have hwidth : s.width? = u.width? := hcore .width (by decide)
  have hheight : s.height? = u.height? := hcore .height (by decide)
  have hdpr : s.dpr? c = u.dpr? c := hcore .dpr (by decide)
  unfold render htmlWidth? htmlHeight? isHiDpi isAutoWidth
  rw [h.failure?_eq, hcomponents, hresponsive, hhides, hwidth, hheight, hdpr, h.htmlWidth, h.htmlHeight]

end AgreeOutside

/-! ## Putting a value under a parameter -/

theorem get?_put_name (s : Segment) (p q : Parameter) (v : Value) :
    (s.put p.name v).get? q.name = if p = q then some v else s.get? q.name := by
  rw [get?_put]
  by_cases h : p = q
  · rw [if_pos h, if_pos (congrArg _ h)]
  · rw [if_neg h, if_neg fun hname => h (Parameter.eq_of_name_eq hname)]

theorem get?_put_of_ne {p q : Parameter} (h : p ≠ q) (s : Segment) (v : Value) :
    (s.put p.name v).get? q.name = s.get? q.name := by
  rw [get?_put_name, if_neg h]

theorem text?_put_of_ne {p q : Parameter} (h : p ≠ q) (s : Segment) (v : Value) :
    (s.put p.name v).text? q = s.text? q := text?_eq_of_get?_eq (get?_put_of_ne h s v)

theorem text?_put_scalar (s : Segment) (p : Parameter) (text : String) :
    (s.put p.name (.scalar text)).text? p = given (some text) := by
  have hget : (s.put p.name (.scalar text)).get? p.name = some (.scalar text) := get?_put_self ..
  ext own
  rw [text?_eq_some_iff, given_eq_some_iff, Shows, hget]
  simp [Value.render]

theorem text?_of_get?_eq_none {s : Segment} {p : Parameter} (h : s.get? p.name = none) : s.text? p = none := by
  rw [text?, h]
  rfl

/-- A value that can be rendered, put in the place of another one. -/
theorem agreeOutside_put {ps : List Parameter} {s : Segment} {p : Parameter} {v : Value} (hp : p ∈ ps)
    (hold : (s.get? p.name).bind Value.failure? = none) (hv : v.failure? = none) :
    AgreeOutside ps s (s.put p.name v) where
  get? q hq := (get?_put_of_ne (fun heq : p = q => hq (heq ▸ hp)) s v).symm
  failure? q _ := by
    rw [get?_put_name]
    by_cases h : p = q
    · rw [if_pos h, ← h, hold, Option.bind_some, hv]
    · rw [if_neg h]
  userParameters := by
    rw [put, filter_upsert isVariableName p.isVariableName_name]
  htmlWidth := rfl
  htmlHeight := rfl

/-- A combined parameter in the place of two single ones. -/
theorem agreeOutside_combined {s : Segment} {p a b : Parameter} (hp : (s.get? p.name).bind Value.failure? = none)
    (ha : (s.get? a.name).bind Value.failure? = none) (hb : (s.get? b.name).bind Value.failure? = none) (hab : a ≠ b)
    {v : Value} (hv : v.failure? = none) (x y : String) :
    AgreeOutside [p, a, b] (s.put p.name v) ((s.put a.name (.scalar x)).put b.name (.scalar y)) := by
  have hcombined : AgreeOutside [p, a, b] s (s.put p.name v) := agreeOutside_put (by simp) hp hv
  have hfirst : AgreeOutside [p, a, b] s (s.put a.name (.scalar x)) := agreeOutside_put (by simp) ha rfl
  have hsecond : ((s.put a.name (.scalar x)).get? b.name).bind Value.failure? = none := by
    rw [get?_put_of_ne hab, hb]
  exact (hcombined.symm.trans hfirst).trans (agreeOutside_put (by simp) hsecond rfl)

/-! ## Offsets -/

theorem given_bind {β : Type} {f : String → Option β} (h : f "" = none) (text : String) :
    (given (some text)).bind f = f text := by
  by_cases ht : text = ""
  · rw [ht, h]
    rfl
  · rw [given_eq_some_iff.mpr ⟨rfl, ht⟩]
    rfl

theorem clipPoint?_empty : clipPoint? "" = none := by decide

theorem clipStart?_empty : clipStart? "" = none := by decide

theorem combinedOffset?_of_get?_eq_none {s : Segment} (h : s.get? Parameter.offset.name = none) :
    s.combinedOffset? = none := by
  rw [combinedOffset?, h]

theorem combinedOffset?_put (s : Segment) (v : Value) :
    (s.put Parameter.offset.name v).combinedOffset? = v.combinedOffset? := by
  rw [combinedOffset?_eq_bind, get?_put_self, Option.bind_some]

theorem clip_of_sources : ∀ p ∈ Parameter.core.map Prod.snd,
    (∃ q ∈ p.sources, q ∈ [Parameter.offset, .startOffset, .endOffset]) → p = .startOffset ∨ p = .endOffset := by
  decide

/-- An offset that is no range resolves to nothing. -/
theorem render_put_offset_of_none {s : Segment} (hoffset : s.get? Parameter.offset.name = none) {v : Value}
    (hv : v.failure? = none) (hclip : v.combinedOffset? = none) (c : RenderContext) :
    (s.put Parameter.offset.name v).render c = s.render c := by
  have hcombined : AgreeOutside [.offset, .startOffset, .endOffset] s (s.put Parameter.offset.name v) :=
    agreeOutside_put (by decide) (by rw [hoffset]; rfl) hv
  refine hcombined.symm.render_eq (by decide) c fun p hp hsource => ?_
  obtain rfl | rfl := clip_of_sources p hp hsource
  · show startOffset? _ = startOffset? _
    rw [startOffset?, startOffset?, combinedOffset?_put, hclip, combinedOffset?_of_get?_eq_none hoffset,
      text?_put_of_ne (by decide)]
  · show endOffset? _ = endOffset? _
    rw [endOffset?, endOffset?, combinedOffset?_put, hclip, combinedOffset?_of_get?_eq_none hoffset,
      text?_put_of_ne (by decide)]

section
variable {s : Segment} (hoffset : s.get? Parameter.offset.name = none)
  (hstart : s.get? Parameter.startOffset.name = none) (hstop : s.get? Parameter.endOffset.name = none)
include hoffset hstart hstop

theorem render_put_offset {v : Value} (hv : v.failure? = none) {start stop : String}
    (hclip : v.combinedOffset? = some (start, stop)) (c : RenderContext) :
    (s.put Parameter.offset.name v).render c =
      ((s.put Parameter.startOffset.name (.scalar start)).put Parameter.endOffset.name (.scalar stop)).render c := by
  have hagree : AgreeOutside [.offset, .startOffset, .endOffset] (s.put Parameter.offset.name v)
      ((s.put Parameter.startOffset.name (.scalar start)).put Parameter.endOffset.name (.scalar stop)) :=
    agreeOutside_combined (by rw [hoffset]; rfl) (by rw [hstart]; rfl) (by rw [hstop]; rfl) (by decide) hv start stop
  have hnone : ((s.put Parameter.startOffset.name (.scalar start)).put Parameter.endOffset.name
      (.scalar stop)).combinedOffset? = none := by
    apply combinedOffset?_of_get?_eq_none
    rw [get?_put_of_ne (by decide), get?_put_of_ne (by decide), hoffset]
  refine hagree.render_eq (by decide) c fun p hp hsource => ?_
  obtain rfl | rfl := clip_of_sources p hp hsource
  · show startOffset? _ = startOffset? _
    rw [startOffset?, startOffset?, combinedOffset?_put, hclip, hnone, text?_put_of_ne (by decide),
      text?_of_get?_eq_none hstart, text?_put_of_ne (by decide), text?_put_scalar, Option.map_none, Option.or_none,
      given_bind clipStart?_empty]
    rfl
  · show endOffset? _ = endOffset? _
    rw [endOffset?, endOffset?, combinedOffset?_put, hclip, hnone, text?_put_of_ne (by decide),
      text?_of_get?_eq_none hstop, text?_put_scalar, Option.map_none, Option.or_none, given_bind clipPoint?_empty]
    rfl

end

/-! ## Sizes -/

theorem size_of_sources : ∀ p ∈ Parameter.core.map Prod.snd,
    (∃ q ∈ p.sources, q ∈ [Parameter.size, .width, .height]) → p = .width ∨ p = .height := by
  decide

/-- The segment has a combined size with an `x` in it, which is cut at the first one. -/
def HasSides (s : Segment) (width height : String) : Prop :=
  s.Shows .size (width ++ "x" ++ height) ∧ 'x' ∉ width.toList

theorem combinedSize?_eq_some_iff {s : Segment} {width height : String} :
    s.combinedSize? = some (width, height) ↔ s.HasSides width height := by
  have hsides : ∀ size : String, ((cut? ['x'] size.toList).map fun sides =>
      (String.ofList sides.1, String.ofList sides.2)) = some (width, height) ↔
        size = width ++ "x" ++ height ∧ 'x' ∉ width.toList := by
    intro size
    have htext : (width ++ "x" ++ height).toList = width.toList ++ 'x' :: height.toList := by simp
    rw [← String.toList_inj, htext, ← cut?_eq_some_iff, Option.map_eq_some_iff]
    constructor
    · rintro ⟨sides, hcut, heq⟩
      cases heq
      simpa using hcut
    · exact fun hcut => ⟨_, hcut, by simp⟩
  simp only [combinedSize?, Option.bind_eq_some_iff, hsides, text?_eq_some_iff, HasSides]
  constructor
  · rintro ⟨size, hshown, rfl, hx⟩
    exact ⟨hshown, hx⟩
  · rintro ⟨hshown, hx⟩
    exact ⟨_, hshown, rfl, hx⟩

theorem combinedSize?_of_text?_eq_none {s : Segment} (h : s.text? .size = none) : s.combinedSize? = none := by
  rw [combinedSize?, h]
  rfl

theorem combinedSize?_put_of_not_mem (s : Segment) {size : String} (h : 'x' ∉ size.toList) :
    (s.put Parameter.size.name (.scalar size)).combinedSize? = none := by
  rw [Option.eq_none_iff_forall_ne_some]
  rintro ⟨width, height⟩ hsides
  obtain ⟨⟨v, hget, hrender, -⟩, -⟩ := combinedSize?_eq_some_iff.mp hsides
  rw [get?_put_self] at hget
  cases hget
  cases hrender
  exact h (by simp)

theorem combinedSize?_put (s : Segment) {width : String} (h : 'x' ∉ width.toList) (height : String) :
    (s.put Parameter.size.name (.scalar (width ++ "x" ++ height))).combinedSize? = some (width, height) := by
  refine combinedSize?_eq_some_iff.mpr ⟨⟨_, get?_put_self .., rfl, ?_⟩, h⟩
  simp [String.append_eq_empty_iff]

theorem render_put_size_of_not_mem {s : Segment} (hsize : s.get? Parameter.size.name = none) {size : String}
    (h : 'x' ∉ size.toList) (c : RenderContext) :
    (s.put Parameter.size.name (.scalar size)).render c = s.render c := by
  have hcombined : AgreeOutside [.size, .width, .height] s (s.put Parameter.size.name (.scalar size)) :=
    agreeOutside_put (by decide) (by rw [hsize]; rfl) rfl
  refine hcombined.symm.render_eq (by decide) c fun p hp hsource => ?_
  have hnone := combinedSize?_of_text?_eq_none (text?_of_get?_eq_none hsize)
  obtain rfl | rfl := size_of_sources p hp hsource
  · show width? _ = width? _
    rw [width?, width?, combinedSize?_put_of_not_mem s h, hnone, text?_put_of_ne (by decide)]
  · show height? _ = height? _
    rw [height?, height?, combinedSize?_put_of_not_mem s h, hnone, text?_put_of_ne (by decide)]

/-- A combined size resolves to what a width and a height resolve to. The width and the height that it goes before
must not fail, since they are read all the same. -/
theorem render_put_size {s : Segment} (hsize : s.get? Parameter.size.name = none)
    (hwidth : (s.get? Parameter.width.name).bind Value.failure? = none)
    (hheight : (s.get? Parameter.height.name).bind Value.failure? = none) {width : String} (h : 'x' ∉ width.toList)
    (height : String) (c : RenderContext) :
    (s.put Parameter.size.name (.scalar (width ++ "x" ++ height))).render c =
      ((s.put Parameter.width.name (.scalar width)).put Parameter.height.name (.scalar height)).render c := by
  have hagree : AgreeOutside [.size, .width, .height]
      (s.put Parameter.size.name (.scalar (width ++ "x" ++ height)))
      ((s.put Parameter.width.name (.scalar width)).put Parameter.height.name (.scalar height)) :=
    agreeOutside_combined (by rw [hsize]; rfl) hwidth hheight (by decide) rfl width height
  have hnone : ((s.put Parameter.width.name (.scalar width)).put Parameter.height.name
      (.scalar height)).combinedSize? = none := by
    apply combinedSize?_of_text?_eq_none
    rw [text?_put_of_ne (by decide), text?_put_of_ne (by decide), text?_of_get?_eq_none hsize]
  refine hagree.render_eq (by decide) c fun p hp hsource => ?_
  obtain rfl | rfl := size_of_sources p hp hsource
  · show width? _ = width? _
    rw [width?, width?, combinedSize?_put s h, hnone]
    show given (some width) = text? _ .width
    rw [text?_put_of_ne (by decide), text?_put_scalar]
  · show height? _ = height? _
    rw [height?, height?, combinedSize?_put s h, hnone]
    show given (some height) = text? _ .height
    rw [text?_put_scalar]

end Segment

namespace Transformation

theorem render_eq_of_current {t u : Transformation} {d : Defaults} (hchained : t.chained = u.chained)
    (h : t.current.render d.context = u.current.render d.context) : t.render d = u.render d := by
  unfold Transformation.render
  rw [renderIn_eq, renderIn_eq, hchained, h]

/-- Where no clip is set yet, a range renders as its start and its end would, and an offset that is no range renders
as nothing. A list of at least two values is taken as an offset, and renders as the first two of them would. -/
theorem clip_spellings {t : Transformation} (hoffset : t.get? Parameter.offset.name = none)
    (hstart : t.get? Parameter.startOffset.name = none) (hstop : t.get? Parameter.endOffset.name = none)
    (d : Defaults) :
    (∀ range start stop, clipRange? range = some (start, stop) →
      (t.set .offset range).render d = ((t.set .startOffset start).set .endOffset stop).render d) ∧
    (∀ range, clipRange? range = none → (t.set .offset range).render d = t.render d) ∧
    ∀ start stop rest, ∃ u, t.setOffsetRange (start :: stop :: rest) = .ok u ∧
      u.render d = ((t.set .startOffset start).set .endOffset stop).render d := by
  refine ⟨?_, ?_, ?_⟩
  · intro range start stop h
    exact render_eq_of_current rfl (Segment.render_put_offset (v := .scalar range) hoffset hstart hstop rfl h d.context)
  · intro range h
    exact render_eq_of_current rfl (Segment.render_put_offset_of_none (v := .scalar range) hoffset rfl h d.context)
  · intro start stop rest
    refine ⟨t.setList .offset (start :: stop :: rest), rfl, ?_⟩
    exact render_eq_of_current rfl (Segment.render_put_offset hoffset hstart hstop rfl rfl d.context)

def sepiaVideo : Transformation := empty.set .rawTransformation "e_sepia"

theorem clip_spellings_sepiaVideo : sepiaVideo.get? Parameter.offset.name = none ∧
    sepiaVideo.get? Parameter.startOffset.name = none ∧ sepiaVideo.get? Parameter.endOffset.name = none ∧
    clipRange? "2.5..10%" = some ("2.5", "10%") ∧
    (sepiaVideo.set .offset "2.5..10%").render {} =
      ((sepiaVideo.set .startOffset "2.5").set .endOffset "10%").render {} ∧
    clipRange? "auto..2" = none ∧
    (sepiaVideo.set .offset "auto..2").render {} = .ok ⟨"e_sepia", none, none, false, false⟩ ∧
    ∃ u, sepiaVideo.setOffsetRange ["auto", "auto", "2"] = .ok u ∧
      u.render {} = .ok ⟨"so_auto,e_sepia", none, none, false, false⟩ := by
  obtain ⟨hrange, hother, hlist⟩ := clip_spellings (t := sepiaVideo) rfl rfl rfl {}
  obtain ⟨u, hu, hrender⟩ := hlist "auto" "auto" ["2"]
  have hpoints : clipRange? "2.5..10%" = some ("2.5", "10%") := by decide
  have hauto : clipRange? "auto..2" = none := by decide
  refine ⟨rfl, rfl, rfl, hpoints, hrange _ _ _ hpoints, hauto, (hother _ hauto).trans ?_, u, hu, hrender.trans ?_⟩
  · decide +kernel
  · decide +kernel

/-- Where no size is set yet, and no width or height but a text, a size renders as its two sides would, and one without
an `x` renders as nothing. -/
theorem size_spellings {t : Transformation} (hsize : t.get? Parameter.size.name = none)
    (hwidth : ∀ v, t.get? Parameter.width.name = some v → ∃ text, v = .scalar text)
    (hheight : ∀ v, t.get? Parameter.height.name = some v → ∃ text, v = .scalar text) (d : Defaults) :
    (∀ width height : String, 'x' ∉ width.toList →
      (t.set .size (width ++ "x" ++ height)).render d = ((t.set .width width).set .height height).render d) ∧
    ∀ size : String, 'x' ∉ size.toList → (t.set .size size).render d = t.render d := by
  have hscalar : ∀ {v? : Option Value}, (∀ v, v? = some v → ∃ text, v = .scalar text) →
      v?.bind Value.failure? = none := by
    intro v? h
    cases v? with
    | none => rfl
    | some v =>
      obtain ⟨text, rfl⟩ := h v rfl
      rfl
  refine ⟨?_, ?_⟩
  · intro width height h
    exact render_eq_of_current rfl
      (Segment.render_put_size hsize (hscalar hwidth) (hscalar hheight) h height d.context)
  · intro size h
    exact render_eq_of_current rfl (Segment.render_put_size_of_not_mem hsize h d.context)

def narrowImage : Transformation := empty.set .width "10"

theorem size_spellings_narrowImage : narrowImage.get? Parameter.size.name = none ∧
    narrowImage.get? Parameter.width.name = some (.scalar "10") ∧
    narrowImage.get? Parameter.height.name = none ∧
    (narrowImage.set .size "300x200").render {} = ((narrowImage.set .width "300").set .height "200").render {} ∧
    ((narrowImage.set .size "300x200").render {}).map (fun r => (r.htmlWidth, r.htmlHeight)) =
      .ok (some "300", some "200") ∧
    (narrowImage.set .size "300").render {} = .ok ⟨"w_10", some "10", none, false, false⟩ := by
  have hwidth : ∀ v, narrowImage.get? Parameter.width.name = some v → ∃ text, v = .scalar text := by
    intro v hv
    cases hv
    exact ⟨"10", rfl⟩
  have hheight : ∀ v, narrowImage.get? Parameter.height.name = some v → ∃ text, v = .scalar text := by
    intro v hv
    cases hv
  obtain ⟨hsides, hother⟩ := size_spellings (t := narrowImage) rfl hwidth hheight {}
  refine ⟨rfl, rfl, rfl, hsides "300" "200" (by decide), ?_, (hother "300" (by decide)).trans ?_⟩
  · decide +kernel
  · decide +kernel

end Transformation

end DeliveryPath
