import DeliveryPath.Proofs.Omission
import DeliveryPath.Proofs.PathParts
import DeliveryPath.Proofs.RequiredParts

/-!
# When rendering fails

A layer fails only for want of a part. It makes its segment fail if it stands under a key whose value is rendered
(`Segment.exists_failure?_iff`), and a responsive segment fails with the path that follows it (`render_error_iff`). A
tree fails with any of its segments (`render_fails_iff`).
-/

namespace DeliveryPath

/-! ## Layers -/

/-- Only a missing part can be what is wrong. -/
def LacksAtMost {α : Type} (x : Except Error α) : Prop := ∀ e, x = .error e → e.family = .missingField

theorem lacksAtMost_ok {α : Type} (a : α) : LacksAtMost (.ok a) := by
  intro e h
  cases h

theorem Layer.lacksAtMost_render (l : Layer) : LacksAtMost l.render := by
  intro e h
  obtain ⟨part, -, rfl⟩ := Layer.render_eq_error_iff.mp h
  rfl

/-! ## Keys whose values are rendered -/

def isRenderedKey (key : String) : Bool := isVariableName key || Parameter.rendered.any (·.name = key)

theorem isRenderedKey_iff {key : String} :
    isRenderedKey key = true ↔ isVariableName key = true ∨ ∃ p ∈ Parameter.rendered, p.name = key := by
  simp [isRenderedKey]

namespace Segment

theorem mem_rendered_iff (p : Parameter) :
    p ∈ Parameter.rendered ↔ p ∈ readFirst ∨ p ∈ [Parameter.assignments, .rawTransformation] := by
  cases p <;> decide

theorem mem_valuesRead_iff {s : Segment} (hd : s.DistinctKeys) {v : Value} :
    v ∈ s.valuesRead ↔ ∃ key, isRenderedKey key = true ∧ s.get? key = some v := by
  have hget : ∀ name, s.get? name = some v ↔ (name, v) ∈ s.parameters := fun _ => valueAt?_eq_some_iff_mem hd
  unfold valuesRead
  simp only [List.mem_append, List.mem_filterMap, List.mem_map, List.mem_filter]
  constructor
  · rintro ((⟨p, hp, hv⟩ | ⟨⟨name, w⟩, ⟨hm, hname⟩, rfl⟩) | ⟨p, hp, hv⟩)
    · exact ⟨p.name, isRenderedKey_iff.mpr (.inr ⟨p, (mem_rendered_iff p).mpr (.inl hp), rfl⟩), hv⟩
    · exact ⟨name, isRenderedKey_iff.mpr (.inl hname), (hget name).mpr hm⟩
    · exact ⟨p.name, isRenderedKey_iff.mpr (.inr ⟨p, (mem_rendered_iff p).mpr (.inr hp), rfl⟩), hv⟩
  · rintro ⟨key, hkey, hv⟩
    obtain hname | ⟨p, hp, rfl⟩ := isRenderedKey_iff.mp hkey
    · exact .inl (.inr ⟨(key, v), ⟨(hget key).mp hv, hname⟩, rfl⟩)
    · obtain hp | hp := (mem_rendered_iff p).mp hp
      · exact .inl (.inl ⟨p, hp, hv⟩)
      · exact .inr ⟨p, hp, hv⟩

theorem failure?_eq_none_iff {s : Segment} (hd : s.DistinctKeys) : s.failure? = none ↔
    ∀ key v, isRenderedKey key = true → s.get? key = some v → v.failure? = none := by
  unfold failure?
  rw [List.findSome?_eq_none_iff]
  constructor
  · intro h key v hkey hv
    exact h v ((mem_valuesRead_iff hd).mpr ⟨key, hkey, hv⟩)
  · intro h v hv
    obtain ⟨key, hkey, hget⟩ := (mem_valuesRead_iff hd).mp hv
    exact h key v hkey hget

theorem exists_failure?_iff {s : Segment} (hd : s.DistinctKeys) : (∃ e, s.failure? = some e) ↔
    ∃ key l e, isRenderedKey key = true ∧ s.get? key = some (.layer l) ∧ l.render = .error e := by
  unfold failure?
  constructor
  · rintro ⟨e, h⟩
    obtain ⟨v, hm, hv⟩ := List.exists_of_findSome?_eq_some h
    obtain ⟨key, hkey, hget⟩ := (mem_valuesRead_iff hd).mp hm
    obtain ⟨l, rfl, hl⟩ := Value.exists_layer_of_failure? hv
    exact ⟨key, l, e, hkey, hget, hl⟩
  · rintro ⟨key, l, e, hkey, hget, hl⟩
    rw [← Option.isSome_iff_exists, List.findSome?_isSome_iff]
    have hv : (Value.layer l).failure? = some e := Value.render_eq_error_iff.mp hl
    exact ⟨.layer l, (mem_valuesRead_iff hd).mpr ⟨key, hkey, hget⟩, by rw [hv]; rfl⟩

theorem render_error_iff {c : RenderContext} {s : Segment} {e : Error} : s.render c = .error e ↔
    s.failure? = some e ∨ s.failure? = none ∧ s.isResponsive c = true ∧ c.responsivePath = .error e := by
  unfold render
  cases s.failure? with
  | some e' => simp
  | none =>
    cases s.isResponsive c with
    | false => simp [bind, Except.bind, pure, Except.pure]
    | true => cases c.responsivePath <;> simp [bind, Except.bind, pure, Except.pure]

theorem family_of_failure? {s : Segment} {e : Error} (h : s.failure? = some e) : e.family = .missingField := by
  obtain ⟨v, -, hv⟩ := List.exists_of_findSome?_eq_some h
  obtain ⟨l, -, hl⟩ := Value.exists_layer_of_failure? hv
  exact l.lacksAtMost_render e hl

theorem lacksAtMost_render {c : RenderContext} (hc : LacksAtMost c.responsivePath) (s : Segment) :
    LacksAtMost (s.render c) := by
  intro e h
  obtain hf | ⟨-, -, hr⟩ := render_error_iff.mp h
  · exact family_of_failure? hf
  · exact hc e hr

end Segment

/-! ## Transformations -/

theorem exists_error_iff {α ε : Type} {x : Except ε α} : (∃ e, x = .error e) ↔ ¬∃ a, x = .ok a := by
  cases x <;> simp

def Value.isLayer : Value → Bool
  | layer _ => true
  | _ => false

/-- A layer is astray under a key that is not rendered. -/
def isNotAstray (key : String) (v : Value) : Bool := isRenderedKey key || !v.isLayer

theorem keepsNoticed_isNotAstray : Segment.KeepsNoticed isNotAstray where
  userVariable name v h := by rw [isNotAstray, isRenderedKey_iff.mpr (.inl h), Bool.true_or]
  parameter p v h := by
    cases v with
    | layer l =>
      have hp : p ∈ Parameter.rendered := by
        refine p.mem_rendered_or.resolve_right fun hp => ?_
        rw [Parameter.ignores, List.contains_iff_mem.mpr hp] at h
        cases h
      rw [isNotAstray, isRenderedKey_iff.mpr (.inr ⟨p, hp, rfl⟩), Bool.true_or]
    | _ => exact Bool.or_true _

namespace Transformation

variable (c : RenderContext)

theorem exists_renderIn_error_iff {t : Transformation} :
    (∃ e, renderIn c t = .error e) ↔ ∃ s ∈ t.segments, ∃ e, s.render c = .error e := by
  simp only [renderIn_error_iff, exists_error_iff, exists_pathOf_iff, not_forall, exists_prop]

theorem lacksAtMost_renderIn (hc : LacksAtMost c.responsivePath) (t : Transformation) : LacksAtMost (t.renderIn c) := by
  intro e h
  obtain ⟨-, s, -, -, -, hs⟩ := (pathOf_error_iff c).mp ((renderIn_error_iff c).mp h)
  exact Segment.lacksAtMost_render hc s e hs

theorem lacksAtMost_generate (t : Transformation) : LacksAtMost t.generate := by
  intro e h
  rw [generate_eq, ← renderIn_error_iff] at h
  exact lacksAtMost_renderIn {} (lacksAtMost_ok usualResponsivePath) t e h

/-- Rendering fails where a key that is rendered holds a layer that lacks something, or where a segment is responsive
and the path to follow it fails itself. Layers under other keys make no difference. -/
theorem render_fails_iff {t : Transformation} (ht : Reachable t) (d : Defaults) :
    ((∃ e, t.render d = .error e) ↔
      (∃ s ∈ t.segments, ∃ key l e, isRenderedKey key = true ∧ s.get? key = some (.layer l) ∧ l.render = .error e) ∨
      ((∃ s ∈ t.segments, s.isResponsive d.context = true) ∧ ∃ e, d.responsiveWidth.generate = .error e)) ∧
    (∀ e, t.render d = .error e → e.family = .missingField) ∧
    (t.keeping isNotAstray).render d = t.render d := by
  have hd := (reachable_iff_built.mp ht).distinctKeys
  refine ⟨?_, lacksAtMost_renderIn d.context (lacksAtMost_generate d.responsiveWidth) t,
    render_keeping keepsNoticed_isNotAstray ht d⟩
  unfold Transformation.render
  rw [exists_renderIn_error_iff]
  constructor
  · rintro ⟨s, hs, e, he⟩
    obtain hf | ⟨-, hr, hp⟩ := Segment.render_error_iff.mp he
    · exact .inl ⟨s, hs, (Segment.exists_failure?_iff (hd s hs)).mp ⟨e, hf⟩⟩
    · exact .inr ⟨⟨s, hs, hr⟩, e, hp⟩
  · rintro (⟨s, hs, hl⟩ | ⟨⟨s, hs, hr⟩, e, hp⟩)
    · obtain ⟨e, hf⟩ := (Segment.exists_failure?_iff (hd s hs)).mpr hl
      exact ⟨s, hs, e, Segment.render_error_iff.mpr (.inl hf)⟩
    · cases hf : s.failure? with
      | some e' => exact ⟨s, hs, e', Segment.render_error_iff.mpr (.inl hf)⟩
      | none => exact ⟨s, hs, e, Segment.render_error_iff.mpr (.inr ⟨hf, hr, hp⟩)⟩

/-- Two layers that lack everything, one of them astray. -/
def bareLayers : Transformation :=
  ofParameters [("note", .layer (.ofKind .image)), ("overlay", .layer (.ofKind .text))]

theorem render_fails_iff_bareLayers : Reachable bareLayers ∧ bareLayers.current ∈ bareLayers.segments ∧
    (∃ e, bareLayers.render {} = .error e) ∧
    (∀ e, bareLayers.render {} = .error e → e.family = .missingField) ∧
    (bareLayers.keeping isNotAstray).current.parameters.map Prod.fst = ["overlay"] ∧
    (bareLayers.keeping isNotAstray).render {} = bareLayers.render {} ∧
    bareLayers.render {} = .error (.missingPart .textOrPublicId) := by
  have ht : Reachable bareLayers := .ofParameters _
  have hs := current_mem_segments bareLayers
  obtain ⟨hiff, hfamily, hastray⟩ := render_fails_iff ht {}
  have hfails := hiff.mpr (.inl ⟨_, hs, "overlay", .ofKind .text, _, by decide, rfl, rfl⟩)
  exact ⟨ht, hs, hfails, hfamily, by decide, hastray, by decide⟩

end Transformation

end DeliveryPath
