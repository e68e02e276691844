import DeliveryPath.Proofs.MarkerIsolation
import DeliveryPath.Transformation.OfJson

/-!
# Transformations that can be built

Transformations are built by setting parameters and sizes, closing segments and blocks, and joining chains; all
other ways come down to these (`Built`). However one is built, no segment holds a key twice.
-/

namespace DeliveryPath.Transformation

inductive Built : Transformation → Prop
  | empty : Built empty
  | ofChain {ts} : (∀ t ∈ ts, Built t) → Built (ofChain ts)
  | add {t} (key value) : Built t → Built (t.add key value)
  | setHtmlWidth {t} (width) : Built t → Built (t.setHtmlWidth width)
  | setHtmlHeight {t} (height) : Built t → Built (t.setHtmlHeight height)
  | chain {t} : Built t → Built t.chain
  | endIf {t} : Built t → Built t.endIf

/-! ## Other ways to build -/

theorem Built.ifCondition {t : Transformation} (h : Built t) (condition : String) :
    Built (t.ifCondition condition) := h.add _ _

theorem Built.ifElse {t : Transformation} (h : Built t) : Built t.ifElse := h.chain.ifCondition _

theorem Built.foldl_add : ∀ (parameters : List (String × Value)) {t : Transformation}, Built t →
    Built (parameters.foldl (fun t p => t.add p.1 p.2) t)
  | [], _, h => h
  | p :: parameters, _, h => foldl_add parameters (h.add p.1 p.2)

theorem built_ofParameters (parameters : List (String × Value)) : Built (ofParameters parameters) :=
  Built.empty.foldl_add parameters

mutual

theorem built_ofJson : ∀ {json : Json} {t : Transformation}, ofJson json = .ok t → Built t
  | .object fields, t, h => by
    rw [ofJson] at h
    cases hp : parametersOfJson (Json.members fields) with
    | error e => rw [hp] at h; cases h
    | ok parameters => rw [hp] at h; cases h; exact built_ofParameters parameters
  | .array items, t, h => by
    rw [ofJson] at h
    cases hi : ofJsonItems items with
    | error e => rw [hi] at h; cases h
    | ok ts => rw [hi] at h; cases h; exact .ofChain (built_ofJsonItems hi)
  | .null, _, h => by rw [ofJson] at h; cases h
  | .bool _, _, h => by rw [ofJson] at h; cases h
  | .integer _, _, h => by rw [ofJson] at h; cases h
  | .real _, _, h => by rw [ofJson] at h; cases h
  | .string _, _, h => by rw [ofJson] at h; cases h

theorem built_ofJsonItems : ∀ {items : List Json} {ts : List Transformation},
    ofJsonItems items = .ok ts → ∀ t ∈ ts, Built t
  | [], ts, h => by rw [ofJsonItems] at h; cases h; simp
  | item :: items, ts, h => by
    rw [ofJsonItems] at h
    cases hi : ofJson item with
    | error e => rw [hi] at h; cases h
    | ok t =>
      cases hs : ofJsonItems items with
      | error e => rw [hi, hs] at h; cases h
      | ok us =>
        rw [hi, hs] at h
        cases h
        intro u hu
        rcases List.mem_cons.mp hu with rfl | hu
        · exact built_ofJson hi
        · exact built_ofJsonItems hs u hu

end

/-! ## Distinct keys -/

theorem Built.distinctKeys {t : Transformation} (h : Built t) : ∀ s ∈ t.segments, s.DistinctKeys := by
  have hempty : ({} : Segment).DistinctKeys := List.nodup_nil
  induction h with
  | empty => exact List.forall_mem_singleton.mpr hempty
  | ofChain _ ih => exact forall_segments_iff.mpr ⟨forall_segmentsOfChain_iff.mpr ih, hempty⟩
  | add key value _ ih =>
    rw [forall_segments_iff] at ih ⊢
    exact ⟨ih.1, ih.2.put key value⟩
  | setHtmlWidth width _ ih => rw [forall_segments_iff] at ih ⊢; exact ih
  | setHtmlHeight height _ ih => rw [forall_segments_iff] at ih ⊢; exact ih
  | chain _ ih =>
    rw [segments_chain, List.forall_mem_append]
    exact ⟨ih, List.forall_mem_singleton.mpr hempty⟩
  | endIf _ ih =>
    rw [← segmentsOfChain_chain] at ih
    rw [segments_endIf, List.forall_mem_append, List.forall_mem_cons, List.forall_mem_singleton]
    refine ⟨?_, Segment.distinctKeys_ofMarker endMarker, hempty⟩
    exact forall_isolateMarkers ih ih Segment.distinctKeys_ofMarker fun _ => Segment.DistinctKeys.withoutMarker

end DeliveryPath.Transformation
