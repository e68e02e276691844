import DeliveryPath.Proofs.Building
import DeliveryPath.Proofs.PathParts
import DeliveryPath.Proofs.Reading

/-!
# Closing a block in a path

When a block of several segments is closed, a marker moves out of its segment and before all that a path shows
of it. The other components of the segment come after the marker in any case, but those of a chain that the
segment holds come before it: the parts of the path keep their order if and only if no marker crosses such a
chain (`parts_endIf_iff`).
-/

namespace DeliveryPath

theorem Parameter.name_ne_condition {p : Parameter} (h : p ≠ condition) : p.name ≠ condition.name := by
  cases p <;> simp [name] at h ⊢

/-! ## A segment without its marker -/

namespace Segment

section
variable (s : Segment)

theorem get?_withoutMarker_of_ne {p : Parameter} (h : p ≠ .condition) :
    s.withoutMarker.get? p.name = s.get? p.name := by
  rw [get?_withoutMarker, if_neg (Parameter.name_ne_condition h)]

theorem noticed?_withoutMarker (p : Parameter) (h : p ≠ .condition) : s.withoutMarker.noticed? p = s.noticed? p := by
  unfold noticed?
  rw [get?_withoutMarker_of_ne s h]

theorem text?_condition_withoutMarker : s.withoutMarker.text? .condition = none := by
  unfold text?
  rw [get?_withoutMarker, if_pos rfl]; rfl

theorem filter_isVariableName_withoutMarker :
    s.withoutMarker.parameters.filter (isVariableName ·.1) = s.parameters.filter (isVariableName ·.1) := by
  show (without Parameter.condition.name s.parameters).filter _ = _
  unfold without
  rw [List.filter_filter]
  refine List.filter_congr fun p _ => ?_
  by_cases hp : p.1 = Parameter.condition.name
  · have h : isVariableName Parameter.condition.name = false := by decide
    rw [hp, h, Bool.false_and]
  · rw [decide_eq_true hp, Bool.and_true]

/-- The part of a path that is the marker. -/
def markerPart? : Option String := (s.text? .condition).map fun text => "if_" ++ normalize text

theorem parts_eq : s.parts = s.markerPart?.toList ++ s.withoutMarker.parts := by
  have h := noticed?_withoutMarker s
  unfold parts components userVariables markerPart?
  rw [filter_isVariableName_withoutMarker, table_congr h, isResponsive_congr h, text?_condition_withoutMarker,
    text?_congr h (p := .assignments) (by decide) (by decide),
    text?_congr h (p := .rawTransformation) (by decide) (by decide)]
  cases s.text? .condition with
  | none => rfl
  | some text => rfl

theorem failure?_withoutMarker (h : s.failure? = none) : s.withoutMarker.failure? = none := by
  unfold failure? at h ⊢
  rw [List.findSome?_eq_none_iff] at h ⊢
  intro v hv
  refine h v ?_
  have hget : ∀ p : Parameter, s.withoutMarker.get? p.name = some v → s.get? p.name = some v := by
    intro p hp
    rw [get?_withoutMarker] at hp
    by_cases hc : p.name = Parameter.condition.name
    · rw [if_pos hc] at hp; cases hp
    · rw [if_neg hc] at hp; exact hp
  unfold valuesRead at hv ⊢
  rw [filter_isVariableName_withoutMarker] at hv
  simp only [List.mem_append, List.mem_filterMap] at hv ⊢
  rcases hv with (⟨p, hp, hv⟩ | hv) | ⟨p, hp, hv⟩
  · exact .inl (.inl ⟨p, hp, hget p hv⟩)
  · exact .inl (.inr hv)
  · exact .inr ⟨p, hp, hget p hv⟩

end

theorem parts_empty : ({} : Segment).parts = [] := by
  unfold parts
  rw [components_empty rfl]; rfl

theorem withoutMarker_ofMarker (text : String) : (ofMarker text).withoutMarker = {} := by
  simp [withoutMarker, ofMarker, without]

theorem parts_ofMarker (text : String) : (ofMarker text).parts = (ofMarker text).markerPart?.toList := by
  rw [parts_eq, withoutMarker_ofMarker, parts_empty, List.append_nil]

theorem markerPart?_ofMarker {s : Segment} {text : String}
    (h : s.get? Parameter.condition.name = some (.scalar text)) : (ofMarker text).markerPart? = s.markerPart? := by
  unfold markerPart? text?
  rw [h, get?_ofMarker, if_pos rfl]

theorem failure?_ofMarker (text : String) : (ofMarker text).failure? = none := by
  have hget : ∀ (p : Parameter) (v : Value), (ofMarker text).get? p.name = some v → v = .scalar text := by
    intro p v hp
    rw [get?_ofMarker] at hp
    by_cases hc : Parameter.condition.name = p.name
    · rw [if_pos hc] at hp; cases hp; rfl
    · rw [if_neg hc] at hp; cases hp
  unfold failure?
  rw [List.findSome?_eq_none_iff]
  intro v hv
  have hscalar : v = .scalar text := by
    unfold valuesRead at hv
    simp only [List.mem_append, List.mem_filterMap, List.mem_map, List.mem_filter] at hv
    rcases hv with (⟨p, -, hp⟩ | ⟨entry, ⟨hentry, -⟩, rfl⟩) | ⟨p, -, hp⟩
    · exact hget p v hp
    · rw [List.mem_singleton.mp hentry]
    · exact hget p v hp
  rw [hscalar]; rfl

end Segment

namespace Transformation

/-! ## One segment of the block -/

/-- The marker stands beside other parameters, and a chain comes before it that shows something else. -/
def MarkerCrosses (t : Transformation) : Prop :=
  ∃ marker, t.current.markerPart? = some marker ∧ t.marker?.isSome ∧ 2 ≤ t.current.parameters.length ∧
    ∃ part ∈ (segmentsOfChain t.chained).flatMap Segment.parts, part ≠ marker

theorem cons_eq_concat_iff {α : Type} {a : α} {as : List α} : a :: as = as ++ [a] ↔ ∀ b ∈ as, b = a := by
  induction as with
  | nil => simp
  | cons b as ih =>
    rw [List.cons_append, List.cons.injEq, List.forall_mem_cons]
    constructor
    · rintro ⟨rfl, h⟩
      exact ⟨rfl, ih.mp h⟩
    · rintro ⟨rfl, h⟩
      exact ⟨rfl, ih.mpr h⟩

theorem parts_eq (t : Transformation) : t.parts =
    (segmentsOfChain t.chained).flatMap Segment.parts ++ t.current.markerPart?.toList ++
      t.current.withoutMarker.parts := by
  unfold parts
  rw [segments_eq, List.flatMap_append, List.flatMap_singleton, Segment.parts_eq t.current, List.append_assoc]

theorem parts_isolated_cases {t : Transformation} (hd : t.current.DistinctKeys) :
    ((segmentsOfChain t.isolated).flatMap Segment.parts = t.parts ∧ ¬t.MarkerCrosses) ∨
      t.marker?.isSome ∧ 2 ≤ t.current.parameters.length ∧ (segmentsOfChain t.isolated).flatMap Segment.parts =
        t.current.markerPart?.toList ++ (segmentsOfChain t.chained).flatMap Segment.parts ++
          t.current.withoutMarker.parts := by
  rcases isolated_cases hd with ⟨heq, hl⟩ | ⟨text, hm, hl, heq⟩
  · refine .inl ⟨by rw [heq, segmentsOfChain_singleton]; rfl, ?_⟩
    rintro ⟨_, -, hm, h2, -⟩
    obtain ⟨text, hm⟩ := Option.isSome_iff_exists.mp hm
    have h1 := hl text hm
    omega
  · refine .inr ⟨by rw [hm]; rfl, hl, ?_⟩
    have hsegs : segmentsOfChain t.isolated =
        .ofMarker text :: (segmentsOfChain t.chained ++ [t.current.withoutMarker]) := by
      rw [heq, ← List.singleton_append, segmentsOfChain_append, segmentsOfChain_singleton,
        segmentsOfChain_singleton, segments_eq, segments_eq]; rfl
    rw [hsegs, List.flatMap_cons, List.flatMap_append, List.flatMap_singleton, Segment.parts_ofMarker,
      Segment.markerPart?_ofMarker (get?_of_marker? hm), List.append_assoc]

theorem length_parts_isolated {t : Transformation} (hd : t.current.DistinctKeys) :
    ((segmentsOfChain t.isolated).flatMap Segment.parts).length = t.parts.length := by
  rcases parts_isolated_cases hd with ⟨heq, -⟩ | ⟨-, -, heq⟩
  · rw [heq]
  · rw [heq, parts_eq]
    simp only [List.length_append]
    omega

theorem parts_isolated_eq_iff {t : Transformation} (hd : t.current.DistinctKeys) :
    (segmentsOfChain t.isolated).flatMap Segment.parts = t.parts ↔ ¬t.MarkerCrosses := by
  rcases parts_isolated_cases hd with ⟨heq, hn⟩ | ⟨hm, hl, heq⟩
  · exact iff_of_true heq hn
  rw [heq, parts_eq, List.append_cancel_right_eq]
  unfold MarkerCrosses
  cases hp : t.current.markerPart? with
  | none => simp
  | some marker =>
    rw [Option.toList_some, List.singleton_append, cons_eq_concat_iff]
    simp [hm, hl]

/-! ## The whole block -/

theorem flatMap_eq_flatMap_iff {α β : Type} {f g : α → List β} : ∀ {as : List α},
    (∀ a ∈ as, (f a).length = (g a).length) → (as.flatMap f = as.flatMap g ↔ ∀ a ∈ as, f a = g a)
  | [], _ => by simp
  | a :: as, h => by
    rw [List.forall_mem_cons] at h ⊢
    rw [List.flatMap_cons, List.flatMap_cons, ← flatMap_eq_flatMap_iff h.2]
    constructor
    · intro heq
      exact List.append_inj heq h.1
    · rintro ⟨hfirst, hrest⟩
      rw [hfirst, hrest]

theorem parts_isolateMarkers_iff {segments done rest : List Transformation} {first : Transformation}
    (hd : ∀ s ∈ segmentsOfChain segments, s.DistinctKeys) (h : EndsInBlock segments done first rest)
    (hne : rest ≠ []) :
    (segmentsOfChain (isolateMarkers segments)).flatMap Segment.parts =
        (segmentsOfChain segments).flatMap Segment.parts ↔
      ∀ t ∈ first :: rest, ¬t.MarkerCrosses := by
  have hdist : ∀ t ∈ first :: rest, t.current.DistinctKeys := by
    intro t ht
    rw [forall_segmentsOfChain_iff] at hd
    have ht' : t ∈ segments := by rw [h.eq_append]; exact List.mem_append_right done ht
    exact (forall_segments_iff.mp (hd t ht')).2
  rw [h.isolateMarkers hne, h.eq_append, segmentsOfChain_append, segmentsOfChain_append, List.flatMap_append,
    List.flatMap_append, List.append_cancel_left_eq, flatMap_segmentsOfChain_isolated, flatMap_segmentsOfChain]
  -- isolating permutes the parts of a segment, so the two lists agree only segment by segment
  refine (flatMap_eq_flatMap_iff fun t ht => length_parts_isolated (hdist t ht)).trans ?_
  exact forall₂_congr fun t ht => parts_isolated_eq_iff (hdist t ht)

theorem parts_endIf (t : Transformation) : t.endIf.parts =
    (segmentsOfChain (isolateMarkers t.chain.chained)).flatMap Segment.parts ++ ["if_end"] := by
  have hend : (Segment.ofMarker endMarker).markerPart? = some "if_end" := by decide +kernel
  unfold parts
  rw [segments_endIf, List.flatMap_append, List.flatMap_cons, List.flatMap_singleton, Segment.parts_ofMarker,
    Segment.parts_empty, hend, List.append_nil]
  rfl

theorem failure?_endIf {t : Transformation} (hb : Built t) (h : ∀ s ∈ t.segments, s.failure? = none) :
    ∀ s ∈ t.endIf.segments, s.failure? = none := by
  have hd := hb.distinctKeys
  rw [← segmentsOfChain_chain] at h hd
  rw [segments_endIf, List.forall_mem_append, List.forall_mem_cons, List.forall_mem_singleton]
  refine ⟨?_, Segment.failure?_ofMarker endMarker, rfl⟩
  exact forall_isolateMarkers hd h Segment.failure?_ofMarker fun s => Segment.failure?_withoutMarker s

/-- Closing a block keeps a path, and adds a part to it at the end. The other parts stay in their order, unless a
marker of the block that is closed crosses a chain. -/
theorem parts_endIf_iff {t : Transformation} {path : String} (hb : Built t) (hg : t.generate = .ok path) :
    Joined t.parts path ∧ ∃ closed, t.endIf.generate = .ok closed ∧ Joined t.endIf.parts closed ∧
      (t.endIf.parts = t.parts ++ ["if_end"] ↔ ∀ done first rest, EndsInBlock t.chain.chained done first rest →
        rest ≠ [] → ∀ u ∈ first :: rest, ¬u.MarkerCrosses) := by
  have hok := exists_generate_iff.mp ⟨path, hg⟩
  obtain ⟨closed, hclosed⟩ := exists_generate_iff.mpr (failure?_endIf hb hok)
  refine ⟨joined_of_generate hg, closed, hclosed, joined_of_generate hclosed, ?_⟩
  have hd := hb.distinctKeys
  rw [← segmentsOfChain_chain] at hd
  have hparts : t.parts = (segmentsOfChain t.chain.chained).flatMap Segment.parts := by
    rw [segmentsOfChain_chain]; rfl
  rw [parts_endIf, List.append_cancel_right_eq, hparts]
  constructor
  · intro heq done first rest hblock hne
    exact (parts_isolateMarkers_iff hd hblock hne).mp heq
  · intro hcross
    rcases isolateMarkers_cases t.chain.chained with heq | ⟨done, first, rest, hblock, hne, -⟩
    · rw [heq]
    · exact (parts_isolateMarkers_iff hd hblock hne).mpr (hcross done first rest hblock hne)

def flatBlock : Transformation := ((empty.ifCondition "w_gt_1").set .crop "fill").chain

theorem built_flatBlock : Built flatBlock := ((Built.empty.ifCondition "w_gt_1").add "crop" (.scalar "fill")).chain

set_option maxRecDepth 10000 in
theorem parts_endIf_flatBlock : Built flatBlock ∧ flatBlock.generate = .ok "if_w_gt_1,c_fill" ∧
    flatBlock.endIf.parts = flatBlock.parts ++ ["if_end"] ∧
    ∀ done first rest, EndsInBlock flatBlock.chain.chained done first rest → rest ≠ [] →
      ∀ u ∈ first :: rest, ¬u.MarkerCrosses := by
  have hg : flatBlock.generate = .ok "if_w_gt_1,c_fill" := by decide +kernel
  have hparts : flatBlock.endIf.parts = flatBlock.parts ++ ["if_end"] := by decide +kernel
  obtain ⟨-, closed, -, -, hiff⟩ := parts_endIf_iff built_flatBlock hg
  exact ⟨built_flatBlock, hg, hparts, hiff.mp hparts⟩

def nestedBlock : Transformation :=
  ofChain [((ofChain [empty.set .width "50"]).ifCondition "w_gt_1").set .crop "fill"]

theorem built_nestedBlock : Built nestedBlock := by
  have hwidth : Built (ofChain [empty.set .width "50"]) :=
    .ofChain (List.forall_mem_singleton.mpr (Built.empty.add "width" (.scalar "50")))
  exact .ofChain (List.forall_mem_singleton.mpr ((hwidth.ifCondition "w_gt_1").add "crop" (.scalar "fill")))

set_option maxRecDepth 10000 in
/-- The width was set before the condition, and is set under it once the block is closed. -/
theorem nestedBlock_reordered : Built nestedBlock ∧ nestedBlock.generate = .ok "w_50/if_w_gt_1,c_fill" ∧
    nestedBlock.endIf.generate = .ok "if_w_gt_1/w_50/c_fill/if_end" ∧
    nestedBlock.parts = ["w_50", "if_w_gt_1", "c_fill"] ∧
    nestedBlock.endIf.parts = ["if_w_gt_1", "w_50", "c_fill", "if_end"] ∧
    ¬nestedBlock.endIf.parts = nestedBlock.parts ++ ["if_end"] := by
  refine ⟨built_nestedBlock, ?_⟩
  decide +kernel

end Transformation

end DeliveryPath
