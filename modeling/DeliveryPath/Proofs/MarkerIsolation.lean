import DeliveryPath.Transformation.Branch

/-!
# Isolated markers

Closing a block that spans several segments moves its markers into segments of their own. The last block of a
chain begins with the last segment that holds a condition, provided that no marker but `else` comes after it
(`EndsInBlock`). A chain changes in that block only, and there segment by segment (`isolateMarkers_cases`).
-/

namespace DeliveryPath

namespace Segment

def DistinctKeys (s : Segment) : Prop := (s.parameters.map Prod.fst).Nodup

/-- A segment that holds a marker and nothing else. -/
def ofMarker (text : String) : Segment := { parameters := [(Parameter.condition.name, .scalar text)] }

def withoutMarker (s : Segment) : Segment :=
  { s with parameters := without Parameter.condition.name s.parameters }

theorem get?_ofMarker (text key : String) :
    (ofMarker text).get? key = if Parameter.condition.name = key then some (.scalar text) else none := rfl

theorem get?_withoutMarker (s : Segment) (key : String) :
    s.withoutMarker.get? key = if key = Parameter.condition.name then none else s.get? key :=
  valueAt?_without Parameter.condition.name key s.parameters

theorem distinctKeys_ofMarker (text : String) : (ofMarker text).DistinctKeys := by
  simp [DistinctKeys, ofMarker]

theorem DistinctKeys.withoutMarker {s : Segment} (h : s.DistinctKeys) : s.withoutMarker.DistinctKeys :=
  nodup_keys_without h

theorem DistinctKeys.put {s : Segment} (h : s.DistinctKeys) (key : String) (value : Value) :
    (s.put key value).DistinctKeys := nodup_keys_upsert h

end Segment

namespace Transformation

/-! ## One segment -/

/-- What takes the place of a segment of the block. -/
def isolated (t : Transformation) : List Transformation := if t.marker?.isSome then t.splitMarker else [t]

theorem get?_of_marker? {t : Transformation} {text : String} (h : t.marker? = some text) :
    t.current.get? Parameter.condition.name = some (.scalar text) := by
  unfold marker? Segment.scalar? at h
  cases hv : t.current.get? Parameter.condition.name with
  | none => rw [hv] at h; cases h
  | some v =>
    rw [hv] at h
    cases v with
    | scalar text' => cases h; rfl
    | list _ => cases h
    | codec _ => cases h
    | layer _ => cases h
    | assignments _ => cases h

theorem marker?_of_get? {t : Transformation} {text : String}
    (h : t.current.get? Parameter.condition.name = some (.scalar text)) : t.marker? = some text := by
  unfold marker? Segment.scalar?
  rw [h]; rfl

/-- A segment stays whole, or its marker and the rest of it come apart. -/
theorem isolated_cases {t : Transformation} (h : t.current.DistinctKeys) :
    (t.isolated = [t] ∧ ∀ text, t.marker? = some text → t.current.parameters.length < 2) ∨
      ∃ text, t.marker? = some text ∧ 2 ≤ t.current.parameters.length ∧
        t.isolated = [{ current := .ofMarker text }, { t with current := t.current.withoutMarker }] := by
  unfold isolated
  cases hm : t.marker? with
  | none => exact .inl ⟨rfl, fun _ hn => by cases hn⟩
  | some text =>
    have hf := find?_of_valueAt? (get?_of_marker? hm)
    rw [Option.isSome_some, if_pos rfl, splitMarker, hf]
    by_cases hl : t.current.parameters.length < 2
    · exact .inl ⟨if_pos hl, fun _ _ => hl⟩
    · refine .inr ⟨text, rfl, Nat.not_lt.mp hl, ?_⟩
      dsimp only
      rw [if_neg hl, eraseP_eq_without h]; rfl

theorem flatMap_segmentsOfChain {β : Type} (f : Segment → List β) (ts : List Transformation) :
    (segmentsOfChain ts).flatMap f = ts.flatMap fun t => t.segments.flatMap f := by
  rw [segmentsOfChain_eq_flatMap, List.flatMap_assoc]

theorem flatMap_segmentsOfChain_isolated {β : Type} (f : Segment → List β) (ts : List Transformation) :
    (segmentsOfChain (ts.flatMap isolated)).flatMap f =
      ts.flatMap fun t => (segmentsOfChain t.isolated).flatMap f := by
  rw [flatMap_segmentsOfChain, List.flatMap_assoc]
  simp only [flatMap_segmentsOfChain]

/-! ## The last block of a chain -/

/-- Whether a segment leaves the block before it open. -/
def continuesBlock (t : Transformation) : Bool := t.marker?.all (· = elseMarker)

/-- The chain ends in an open block that begins with `first`. -/
structure EndsInBlock (segments done : List Transformation) (first : Transformation)
    (rest : List Transformation) : Prop where
  eq_append : segments = done ++ first :: rest
  opens : first.opensBlock = true
  continues : ∀ t ∈ rest, t.continuesBlock = true

theorem isolated_of_opensBlock {t : Transformation} (h : t.opensBlock = true) : t.isolated = t.splitMarker := by
  unfold opensBlock at h
  unfold isolated
  cases hm : t.marker? with
  | none => rw [hm] at h; cases h
  | some m => rfl

theorem not_opensBlock_of_continuesBlock {t : Transformation} (h : t.continuesBlock = true) :
    t.opensBlock = false := by
  unfold continuesBlock at h
  unfold opensBlock
  cases hm : t.marker? with
  | none => rfl
  | some m =>
    rw [hm, Option.all_some, decide_eq_true_eq] at h
    rw [h]; rfl

theorem splitMarkersBack?_append {first : Transformation} (hf : first.opensBlock = true)
    (earlier : List Transformation) : ∀ later : List Transformation, (∀ t ∈ later, t.continuesBlock = true) →
    splitMarkersBack? (later ++ first :: earlier) =
      some (later.flatMap (·.isolated.reverse) ++ first.isolated.reverse ++ earlier)
  | [], _ => by
    rw [isolated_of_opensBlock hf, List.nil_append, splitMarkersBack?]
    unfold opensBlock at hf
    cases hm : first.marker? with
    | none => rw [hm] at hf; cases hf
    | some m =>
      rw [hm, Option.any_some, Bool.and_eq_true, decide_eq_true_eq, decide_eq_true_eq] at hf
      dsimp only
      rw [if_neg hf.2, if_neg hf.1]; rfl
  | t :: later, h => by
    have ih := splitMarkersBack?_append hf earlier later fun u hu => h u (List.mem_cons_of_mem t hu)
    have ht := h t (List.mem_cons_self ..)
    rw [List.cons_append, splitMarkersBack?, List.flatMap_cons, ih]
    unfold continuesBlock at ht
    unfold isolated
    cases hm : t.marker? with
    | none => simp
    | some m =>
      rw [hm, Option.all_some, decide_eq_true_eq] at ht
      have hne : ¬m = endMarker := by rw [ht]; decide
      dsimp only
      rw [if_neg hne, if_pos ht]
      simp

theorem exists_of_splitMarkersBack? : ∀ {segments split : List Transformation},
    splitMarkersBack? segments = some split → ∃ later first earlier,
      segments = later ++ first :: earlier ∧ first.opensBlock = true ∧ ∀ t ∈ later, t.continuesBlock = true
  | [], _, h => by cases h
  | t :: segments, split, h => by
    rw [splitMarkersBack?] at h
    cases hm : t.marker? with
    | none =>
      rw [hm] at h
      obtain ⟨split', hs, -⟩ := Option.map_eq_some_iff.mp h
      obtain ⟨later, first, earlier, rfl, hf, hl⟩ := exists_of_splitMarkersBack? hs
      refine ⟨t :: later, first, earlier, rfl, hf, ?_⟩
      intro u hu
      rcases List.mem_cons.mp hu with rfl | hu
      · unfold continuesBlock; rw [hm]; rfl
      · exact hl u hu
    | some m =>
      rw [hm] at h
      dsimp only at h
      by_cases he : m = endMarker
      · rw [if_pos he] at h; cases h
      rw [if_neg he] at h
      by_cases hl : m = elseMarker
      · rw [if_pos hl] at h
        obtain ⟨split', hs, -⟩ := Option.map_eq_some_iff.mp h
        obtain ⟨later, first, earlier, rfl, hf, hlater⟩ := exists_of_splitMarkersBack? hs
        refine ⟨t :: later, first, earlier, rfl, hf, ?_⟩
        intro u hu
        rcases List.mem_cons.mp hu with rfl | hu
        · unfold continuesBlock; rw [hm]; simp [hl]
        · exact hlater u hu
      · refine ⟨[], t, segments, rfl, ?_, by simp⟩
        unfold opensBlock; rw [hm]; simp [hl, he]

/-! ## The whole chain -/

theorem isolateMarkers_concat {last : Transformation} (h : last.opensBlock = true) (done : List Transformation) :
    isolateMarkers (done ++ [last]) = done ++ [last] := by
  unfold isolateMarkers
  rw [List.getLast?_concat, Option.any_some, if_pos h]

theorem EndsInBlock.isolateMarkers {segments done rest : List Transformation} {first : Transformation}
    (h : EndsInBlock segments done first rest) (hne : rest ≠ []) :
    isolateMarkers segments = done ++ (first :: rest).flatMap isolated := by
  obtain ⟨rfl, hf, hr⟩ := h
  have hlast : (done ++ first :: rest).getLast?.any opensBlock = false := by
    obtain ⟨front, last, rfl⟩ := (List.eq_nil_or_concat rest).resolve_left hne
    rw [List.concat_eq_append, ← List.cons_append, ← List.append_assoc, List.getLast?_concat, Option.any_some]
    exact not_opensBlock_of_continuesBlock (hr last (by simp))
  have hback := splitMarkersBack?_append hf done.reverse rest.reverse
    fun t ht => hr t (List.mem_reverse.mp ht)
  have hrev : (done ++ first :: rest).reverse = rest.reverse ++ first :: done.reverse := by simp
  unfold Transformation.isolateMarkers
  rw [hlast, if_neg Bool.false_ne_true, hrev, hback]
  have hflat : (rest.reverse.flatMap fun t => t.isolated.reverse).reverse = rest.flatMap isolated := by
    rw [List.reverse_flatMap, List.reverse_reverse]
    exact congrArg (List.flatMap · rest) (funext fun t => List.reverse_reverse t.isolated)
  rw [Option.map_some, Option.getD_some, List.reverse_append, List.reverse_append, hflat, List.reverse_reverse,
    List.reverse_reverse, List.flatMap_cons]

/-- A chain stays as it is, or it ends in a block of several segments and those are isolated. -/
theorem isolateMarkers_cases (segments : List Transformation) : isolateMarkers segments = segments ∨
    ∃ done first rest, EndsInBlock segments done first rest ∧ rest ≠ [] ∧
      isolateMarkers segments = done ++ (first :: rest).flatMap isolated := by
  cases hs : splitMarkersBack? segments.reverse with
  | none =>
    refine .inl ?_
    unfold isolateMarkers
    rw [hs]; simp
  | some split =>
    obtain ⟨later, first, earlier, heq, hf, hl⟩ := exists_of_splitMarkersBack? hs
    have hsegs : segments = earlier.reverse ++ first :: later.reverse := by
      rw [← List.reverse_reverse segments, heq]; simp
    have hblock : EndsInBlock segments earlier.reverse first later.reverse :=
      ⟨hsegs, hf, fun t ht => hl t (List.mem_reverse.mp ht)⟩
    by_cases hne : later = []
    · subst hne
      refine .inl ?_
      rw [hsegs]
      exact isolateMarkers_concat hf _
    · have hne : later.reverse ≠ [] := by simpa using hne
      exact .inr ⟨_, _, _, hblock, hne, hblock.isolateMarkers hne⟩

/-- A property of segments that markers alone have, and that segments keep without their marker. -/
theorem forall_isolateMarkers {P : Segment → Prop} {segments : List Transformation}
    (hd : ∀ s ∈ segmentsOfChain segments, s.DistinctKeys) (h : ∀ s ∈ segmentsOfChain segments, P s)
    (hmarker : ∀ text, P (.ofMarker text)) (hrest : ∀ s, P s → P s.withoutMarker) :
    ∀ s ∈ segmentsOfChain (isolateMarkers segments), P s := by
  rw [forall_segmentsOfChain_iff] at hd h ⊢
  rcases isolateMarkers_cases segments with heq | ⟨done, first, rest, ⟨rfl, -, -⟩, -, heq⟩
  · rw [heq]; exact h
  rw [heq, List.forall_mem_append]
  refine ⟨fun u hu => h u (List.mem_append_left _ hu), ?_⟩
  intro u' hu'
  obtain ⟨u, hu, hu'⟩ := List.mem_flatMap.mp hu'
  have hdu := (forall_segments_iff.mp (hd u (List.mem_append_right _ hu))).2
  have hpu := h u (List.mem_append_right _ hu)
  rcases isolated_cases hdu with ⟨hu1, -⟩ | ⟨text, -, -, hu2⟩
  · rw [hu1, List.mem_singleton] at hu'
    rw [hu']; exact hpu
  · rw [hu2, List.mem_cons, List.mem_singleton] at hu'
    rw [forall_segments_iff] at hpu ⊢
    rcases hu' with rfl | rfl
    · exact ⟨by simp [segmentsOfChain], hmarker text⟩
    · exact ⟨hpu.1, hrest _ hpu.2⟩

/-! ## Closing a block -/

theorem endIf_eq (t : Transformation) : t.endIf =
    { chained := isolateMarkers t.chain.chained ++ [{ current := .ofMarker endMarker }] } := rfl

theorem segments_endIf (t : Transformation) : t.endIf.segments =
    segmentsOfChain (isolateMarkers t.chain.chained) ++ [.ofMarker endMarker, ({} : Segment)] := by
  rw [endIf_eq, segments_eq, segmentsOfChain_append, segmentsOfChain_singleton, List.append_assoc]; rfl

end Transformation

end DeliveryPath
