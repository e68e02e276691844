import Mathlib.Data.List.Basic
import DeliveryPath.Proofs.Runs

/-!
# Blocks in a run

A run leaves its conditions and markers in the segments, in the order of the calls, and apart from them the same
parameters as the run without conditions. A closed block that was split has each of its markers in a segment of
its own.
-/

namespace DeliveryPath.Transformation

/-- The conditions and markers of the segments. -/
def conditions (t : Transformation) : List Value := t.segments.filterMap (·.get? Parameter.condition.name)

def entries (t : Transformation) : List (String × Value) := t.segments.flatMap (·.parameters)

/-! ## Flat chains -/

/-- No member of the chain is a chain itself. -/
def Flat (t : Transformation) : Prop := ∀ u ∈ t.chained, u.chained = []

/-- Each member of the chain is one segment with distinct keys. -/
def Plain (segments : List Transformation) : Prop := ∀ u ∈ segments, u.chained = [] ∧ u.current.DistinctKeys

theorem Flat.plain_chain {t : Transformation} (h : Flat t) (hb : Built t) : Plain t.chain.chained := by
  have hd := hb.distinctKeys
  rw [forall_segments_iff, forall_segmentsOfChain_iff] at hd
  intro u hu
  rcases List.mem_append.mp hu with hu | hu
  · exact ⟨h u hu, (forall_segments_iff.mp (hd.1 u hu)).2⟩
  · rw [List.mem_singleton.mp hu]
    exact ⟨rfl, hd.2⟩

theorem segments_of_chained_eq_nil {u : Transformation} (h : u.chained = []) : u.segments = [u.current] := by
  rw [segments_eq, h]; rfl

theorem chained_eq_nil_of_mem_isolated {u v : Transformation} (h : u.chained = []) (hd : u.current.DistinctKeys)
    (hv : v ∈ u.isolated) : v.chained = [] := by
  rcases isolated_cases hd with ⟨hu, -⟩ | ⟨text, -, -, hu⟩
  · rw [hu, List.mem_singleton] at hv
    rw [hv]; exact h
  · rw [hu, List.mem_cons, List.mem_singleton] at hv
    rcases hv with rfl | rfl
    · rfl
    · exact h

theorem chained_eq_nil_of_mem_isolateMarkers {segments : List Transformation} (h : Plain segments) :
    ∀ u ∈ isolateMarkers segments, u.chained = [] := by
  rcases isolateMarkers_cases segments with heq | ⟨done, first, rest, ⟨rfl, -, -⟩, -, heq⟩
  · rw [heq]
    exact fun u hu => (h u hu).1
  rw [heq, List.forall_mem_append]
  refine ⟨fun u hu => (h u (List.mem_append_left _ hu)).1, ?_⟩
  intro v hv
  obtain ⟨u, hu, hv⟩ := List.mem_flatMap.mp hv
  obtain ⟨hn, hd⟩ := h u (List.mem_append_right _ hu)
  exact chained_eq_nil_of_mem_isolated hn hd hv

theorem Flat.chain {t : Transformation} (h : Flat t) : Flat t.chain := by
  intro u hu
  rcases List.mem_append.mp hu with hu | hu
  · exact h u hu
  · rw [List.mem_singleton.mp hu]

theorem Flat.apply {t : Transformation} (h : Flat t) (hb : Built t) (call : Call) : Flat (call.apply t) := by
  cases call with
  | put key value => exact h
  | setHtmlWidth width => exact h
  | setHtmlHeight height => exact h
  | chain => exact h.chain
  | ifCondition condition => exact h
  | ifElse => exact h.chain
  | endIf =>
    intro u hu
    rw [Call.apply, endIf_eq] at hu
    rcases List.mem_append.mp hu with hu | hu
    · exact chained_eq_nil_of_mem_isolateMarkers (h.plain_chain hb) u hu
    · rw [List.mem_singleton.mp hu]

theorem Flat.run {t : Transformation} (h : Flat t) (hb : Built t) (calls : List Call) : Flat (run t calls) := by
  induction calls generalizing t with
  | nil => exact h
  | cons call calls ih => exact ih (h.apply hb call) (hb.apply call)

/-! ## What isolating keeps -/

section
variable {β : Type} {f : Segment → List β}
  (hf : ∀ s text, s.get? Parameter.condition.name = some (.scalar text) →
    f (.ofMarker text) ++ f s.withoutMarker = f s)
include hf

theorem flatMap_isolated {u : Transformation} (hn : u.chained = []) (hd : u.current.DistinctKeys) :
    (segmentsOfChain u.isolated).flatMap f = u.segments.flatMap f := by
  rcases isolated_cases hd with ⟨hu, -⟩ | ⟨text, hm, -, hu⟩
  · rw [hu, segmentsOfChain_singleton]
  · have hsegs : segmentsOfChain u.isolated = [.ofMarker text, u.current.withoutMarker] := by
      rw [hu, hn]; rfl
    rw [hsegs, segments_of_chained_eq_nil hn, List.flatMap_cons, List.flatMap_singleton, List.flatMap_singleton]
    exact hf u.current text (get?_of_marker? hm)

/-- What can be read off the marker and the rest of each segment is kept. -/
theorem flatMap_isolateMarkers {segments : List Transformation} (h : Plain segments) :
    (segmentsOfChain (isolateMarkers segments)).flatMap f = (segmentsOfChain segments).flatMap f := by
  rcases isolateMarkers_cases segments with heq | ⟨done, first, rest, ⟨rfl, -, -⟩, -, heq⟩
  · rw [heq]
  have hblock : (segmentsOfChain ((first :: rest).flatMap isolated)).flatMap f =
      (segmentsOfChain (first :: rest)).flatMap f := by
    rw [flatMap_segmentsOfChain_isolated, flatMap_segmentsOfChain]
    refine List.flatMap_congr fun u hu => ?_
    obtain ⟨hn, hd⟩ := h u (List.mem_append_right _ hu)
    exact flatMap_isolated hf hn hd
  rw [heq, segmentsOfChain_append, segmentsOfChain_append, List.flatMap_append, List.flatMap_append, hblock]

end

/-! ## Conditions in the order of the calls -/

theorem conditions_eq (t : Transformation) : t.conditions =
    (segmentsOfChain t.chained).filterMap (·.get? Parameter.condition.name) ++
      (t.current.get? Parameter.condition.name).toList := by
  unfold conditions
  rw [segments_eq, List.filterMap_append, List.filterMap_eq_flatMap_toList _ [t.current], List.flatMap_singleton]

theorem conditions_with_current {t : Transformation} {s : Segment}
    (h : s.get? Parameter.condition.name = t.current.get? Parameter.condition.name) :
    conditions { t with current := s } = t.conditions := by
  rw [conditions_eq, conditions_eq, h]

theorem conditions_chain (t : Transformation) : t.chain.conditions = t.conditions := by
  unfold conditions
  rw [segments_chain, List.filterMap_append]
  exact List.append_nil _

theorem conditions_ifCondition {t : Transformation} (h : t.current.get? Parameter.condition.name = none)
    (condition : String) : (t.ifCondition condition).conditions = t.conditions ++ [.scalar condition] := by
  have hg : (t.ifCondition condition).current.get? Parameter.condition.name = some (.scalar condition) := by
    show (t.current.put _ _).get? _ = _
    exact Segment.get?_put_self ..
  rw [conditions_eq, conditions_eq t, h, hg]
  exact congrArg (· ++ _) (List.append_nil _).symm

theorem conditions_endIf {t : Transformation} (h : Flat t) (hb : Built t) :
    t.endIf.conditions = t.conditions ++ [.scalar endMarker] := by
  have hsplit : ∀ (s : Segment) text, s.get? Parameter.condition.name = some (.scalar text) →
      ((Segment.ofMarker text).get? Parameter.condition.name).toList ++
        (s.withoutMarker.get? Parameter.condition.name).toList = (s.get? Parameter.condition.name).toList := by
    intro s text hs
    rw [hs, Segment.get?_ofMarker, Segment.get?_withoutMarker, if_pos rfl, if_pos rfl]; rfl
  have hiso := flatMap_isolateMarkers (f := fun s => (s.get? Parameter.condition.name).toList) hsplit
    (h.plain_chain hb)
  unfold conditions
  rw [segments_endIf, List.filterMap_append, List.filterMap_eq_flatMap_toList, hiso, segmentsOfChain_chain,
    ← List.filterMap_eq_flatMap_toList]
  rfl

theorem conditions_apply {done : List Transformation} {inside after : Bool} {t : Transformation} {call : Call}
    (h : Flat t) (hb : Built t) (hs : Standing done inside t) (hn : call.next? inside = some after) :
    (call.apply t).conditions = t.conditions ++ call.marker?.toList.map .scalar := by
  cases call with
  | put key value =>
    refine (conditions_with_current ?_).trans (List.append_nil _).symm
    rw [Segment.get?_put, if_neg (Call.next?_put hn).1]
  | setHtmlWidth width =>
    show (t.setHtmlWidth width).conditions = t.conditions ++ []
    rw [List.append_nil]
    exact conditions_with_current rfl
  | setHtmlHeight height =>
    show (t.setHtmlHeight height).conditions = t.conditions ++ []
    rw [List.append_nil]
    exact conditions_with_current rfl
  | chain => exact (conditions_chain t).trans (List.append_nil _).symm
  | ifCondition condition =>
    obtain ⟨-, -, rfl, -⟩ := Call.next?_ifCondition hn
    exact conditions_ifCondition hs.get?_eq_none condition
  | ifElse =>
    have hc : t.ifElse.conditions = t.chain.conditions ++ [.scalar elseMarker] :=
      conditions_ifCondition rfl elseMarker
    rw [conditions_chain] at hc
    exact hc
  | endIf => exact conditions_endIf h hb

theorem conditions_run {done : List Transformation} {calls : List Call} {inside after : Bool} {t : Transformation}
    (h : Flat t) (hb : Built t) (hs : Standing done inside t) (hn : next? inside calls = some after) :
    (run t calls).conditions = t.conditions ++ (calls.filterMap Call.marker?).map .scalar := by
  induction calls generalizing t inside with
  | nil => exact (List.append_nil _).symm
  | cons call calls ih =>
    obtain ⟨between, hcall, hcalls⟩ := next?_cons.mp hn
    rw [run_cons, ih (h.apply hb call) (hb.apply call) (hs.apply hcall) hcalls, conditions_apply h hb hs hcall,
      List.append_assoc, ← List.map_append]
    cases hm : call.marker? with
    | none => rw [List.filterMap_cons_none hm]; rfl
    | some text => rw [List.filterMap_cons_some hm]; rfl

/-! ## The other parameters -/

/-- Segment lists and open segments agree on all parameters, those of the first with their conditions dropped. -/
structure SameEntries (t u : Transformation) : Prop where
  chained : (segmentsOfChain t.chained).flatMap (fun s => without Parameter.condition.name s.parameters) =
    (segmentsOfChain u.chained).flatMap (·.parameters)
  current : without Parameter.condition.name t.current.parameters = u.current.parameters

theorem SameEntries.chain {t u : Transformation} (h : SameEntries t u) : SameEntries t.chain u.chain := by
  refine ⟨?_, rfl⟩
  rw [segmentsOfChain_chain, segmentsOfChain_chain, segments_eq, segments_eq, List.flatMap_append,
    List.flatMap_append, h.chained, List.flatMap_singleton, List.flatMap_singleton, h.current]

theorem SameEntries.ifCondition {t u : Transformation} (h : SameEntries t u) (condition : String) :
    SameEntries (t.ifCondition condition) u :=
  ⟨h.chained, (without_upsert_self _ _ _).trans h.current⟩

theorem SameEntries.endIf {t u : Transformation} (h : SameEntries t u) (hf : Flat t) (hb : Built t) :
    SameEntries t.endIf u.chain := by
  have hsplit : ∀ (s : Segment) text, s.get? Parameter.condition.name = some (.scalar text) →
      without Parameter.condition.name (Segment.ofMarker text).parameters ++
        without Parameter.condition.name s.withoutMarker.parameters =
      without Parameter.condition.name s.parameters := by
    intro s text _
    show [] ++ without _ (without _ s.parameters) = _
    unfold without
    rw [List.nil_append, List.filter_filter]
    simp only [Bool.and_self]
  refine ⟨?_, rfl⟩
  have hiso := flatMap_isolateMarkers (f := fun s => without Parameter.condition.name s.parameters) hsplit
    (hf.plain_chain hb)
  rw [endIf_eq, segmentsOfChain_append, List.flatMap_append, hiso]
  exact (List.append_nil _).trans h.chain.chained

theorem SameEntries.apply {t u : Transformation} (h : SameEntries t u) (hf : Flat t) (hb : Built t)
    {inside after : Bool} {call : Call} (hn : call.next? inside = some after) :
    SameEntries (call.apply t) (run u call.unmarked) := by
  cases call with
  | put key value =>
    refine ⟨h.chained, ?_⟩
    show without _ (upsert key value t.current.parameters) = upsert key value u.current.parameters
    rw [without_upsert (Call.next?_put hn).1, h.current]
  | setHtmlWidth width => exact ⟨h.chained, h.current⟩
  | setHtmlHeight height => exact ⟨h.chained, h.current⟩
  | chain => exact h.chain
  | ifCondition condition => exact h.ifCondition condition
  | ifElse => exact h.chain.ifCondition elseMarker
  | endIf => exact h.endIf hf hb

theorem SameEntries.run {t u : Transformation} {calls : List Call} {inside after : Bool} (h : SameEntries t u)
    (hf : Flat t) (hb : Built t) (hn : next? inside calls = some after) :
    SameEntries (run t calls) (run u (calls.flatMap Call.unmarked)) := by
  induction calls generalizing t u inside with
  | nil => exact h
  | cons call calls ih =>
    obtain ⟨between, hcall, hcalls⟩ := next?_cons.mp hn
    rw [run_cons, List.flatMap_cons, run_append]
    exact ih (h.apply hf hb hcall) (hf.apply hb call) (hb.apply call) hcalls

theorem SameEntries.entries_eq {t u : Transformation} (h : SameEntries t u) :
    without Parameter.condition.name t.entries = u.entries := by
  unfold entries
  rw [segments_eq, segments_eq, List.flatMap_append, List.flatMap_append, ← h.chained, List.flatMap_singleton,
    List.flatMap_singleton, ← h.current]
  unfold without
  rw [List.filter_append, List.filter_flatMap]

/-! ## Closed blocks -/

theorem parameters_of_mem_isolated {u : Transformation} {s : Segment} {text : String} (hn : u.chained = [])
    (hd : u.current.DistinctKeys) (hs : s ∈ segmentsOfChain u.isolated)
    (h : s.get? Parameter.condition.name = some (.scalar text)) :
    s.parameters = [(Parameter.condition.name, .scalar text)] := by
  rcases isolated_cases hd with ⟨hu, hl⟩ | ⟨text', hm, -, hu⟩
  · rw [hu, segmentsOfChain_singleton, segments_of_chained_eq_nil hn, List.mem_singleton] at hs
    subst hs
    exact eq_singleton_of_valueAt? h (hl text (marker?_of_get? h))
  · have hsegs : segmentsOfChain u.isolated = [.ofMarker text', u.current.withoutMarker] := by
      rw [hu, hn]; rfl
    rw [hsegs, List.mem_cons, List.mem_singleton] at hs
    rcases hs with rfl | rfl
    · rw [Segment.get?_ofMarker, if_pos rfl] at h
      cases h; rfl
    · rw [Segment.get?_withoutMarker, if_pos rfl] at h
      cases h

theorem parameters_of_mem_closed {block : List Transformation} {s : Segment} {text : String} (h : Plain block)
    (hs : s ∈ segmentsOfChain (block.flatMap isolated ++ [{ current := .ofMarker endMarker }]))
    (hm : s.get? Parameter.condition.name = some (.scalar text)) :
    s.parameters = [(Parameter.condition.name, .scalar text)] := by
  rw [segmentsOfChain_append, List.mem_append, segmentsOfChain_singleton] at hs
  rcases hs with hs | hs
  · obtain ⟨v, hv, hs⟩ := mem_segmentsOfChain.mp hs
    obtain ⟨u, hu, hv⟩ := List.mem_flatMap.mp hv
    obtain ⟨hn, hd⟩ := h u hu
    exact parameters_of_mem_isolated hn hd (mem_segmentsOfChain.mpr ⟨v, hv, hs⟩) hm
  · rw [segments_of_chained_eq_nil rfl, List.mem_singleton] at hs
    subst hs
    rw [Segment.get?_ofMarker, if_pos rfl] at hm
    cases hm; rfl

/-- The segments of a closed block: what it held when it was open and, if it was split, each of its markers in a
segment of its own. -/
def IsClosedBlock (condition : String) (body : List Call) (last : Segment) (block : List Segment) : Prop :=
  block.filterMap (·.get? Parameter.condition.name) =
      ((Call.ifCondition condition :: body ++ [Call.endIf]).filterMap Call.marker?).map .scalar ∧
    if body.any Call.splits then
      ∀ s ∈ block, ∀ v, s.get? Parameter.condition.name = some v → s.parameters = [(Parameter.condition.name, v)]
    else block = [last, .ofMarker endMarker]

theorem exists_isClosedBlock {done : List Transformation} {t : Transformation} (h : Flat t) (hb : Built t)
    (hs : Standing done false t) {condition : String} {body : List Call} {inside : Bool}
    (hn : next? false (.ifCondition condition :: body) = some inside) (hend : .endIf ∉ body) : inside = true ∧
    ∃ block, segmentsOfChain (run t (.ifCondition condition :: body)).endIf.chained =
        segmentsOfChain t.chained ++ block ∧
      IsClosedBlock condition body (run t (.ifCondition condition :: body)).current block := by
  obtain ⟨between, hc, hbody⟩ := next?_cons.mp hn
  obtain ⟨he, hne, -, rfl⟩ := Call.next?_ifCondition hc
  obtain ⟨rfl, hopen⟩ := (OpenBlock.of_ifCondition (t := t) condition).run hbody hend
  refine ⟨rfl, ?_⟩
  rw [Bool.false_or] at hopen
  have hcalls : next? false (.ifCondition condition :: body ++ [.endIf]) = some false :=
    next?_append.mpr ⟨true, hn, rfl⟩
  have hconds := conditions_run h hb hs hcalls
  have hplain := (h.run hb (.ifCondition condition :: body)).plain_chain (hb.run _)
  rw [List.cons_append, run_cons, run_append, Call.apply] at hconds
  rw [run_cons, Call.apply] at hplain ⊢
  obtain ⟨closed, hclosed, hend⟩ := hopen.chained_endIf he hne
  generalize (t.ifCondition condition).run body = u at hclosed hconds hend hplain ⊢
  change u.chained = t.chained ++ closed at hclosed
  change u.endIf.conditions = _ at hconds
  change u.endIf.chained = t.chained ++ _ ++ _ at hend
  -- less the conditions from before the block, those of the closed chain are the block's own
  rw [conditions_eq, conditions_eq t, hs.get?_eq_none, hend, List.append_assoc, segmentsOfChain_append,
    List.filterMap_append, List.append_assoc, List.append_assoc, List.append_cancel_left_eq] at hconds
  have hmarkers := (List.append_nil _).symm.trans hconds
  refine ⟨_, by rw [hend, List.append_assoc, segmentsOfChain_append], hmarkers, ?_⟩
  by_cases hspread : body.any Call.splits = true
  · rw [if_pos hspread] at hmarkers
    rw [if_pos hspread, if_pos hspread]
    intro s hmem v hv
    have hv' := List.mem_filterMap (f := (·.get? Parameter.condition.name)).mpr ⟨s, hmem, hv⟩
    rw [hmarkers] at hv'
    obtain ⟨text, -, rfl⟩ := List.mem_map.mp hv'
    refine parameters_of_mem_closed (fun w hw => hplain w ?_) hmem hv
    show w ∈ u.chained ++ [{ current := u.current }]
    rw [hclosed, List.append_assoc]
    exact List.mem_append_right _ hw
  · rw [if_neg hspread, if_neg hspread]; rfl

/-- What a closed block is made of does not change any more. -/
theorem exists_block_of_run {before body after : List Call} {condition : String} {inside : Bool}
    (h : next? false (before ++ .ifCondition condition :: body ++ .endIf :: after) = some inside)
    (hend : .endIf ∉ body) : ∃ block later,
      (run empty (before ++ .ifCondition condition :: body ++ .endIf :: after)).segments =
        segmentsOfChain (run empty before).chained ++ block ++ later ∧
      IsClosedBlock condition body (run empty (before ++ .ifCondition condition :: body)).current block := by
  obtain ⟨open', hopening, hclosing⟩ := next?_append.mp h
  obtain ⟨between, hbefore, hblock⟩ := next?_append.mp hopening
  obtain ⟨_, hc, -⟩ := next?_cons.mp hblock
  obtain ⟨-, -, rfl, -⟩ := Call.next?_ifCondition hc
  obtain ⟨closed, hclose, hafter⟩ := next?_cons.mp hclosing
  have hstart : Standing [] false empty := .outside rfl
  have hflat : Flat empty := by simp [Flat, empty]
  obtain ⟨rfl, block, hchained, hclosed⟩ := exists_isClosedBlock (hflat.run .empty before) (Built.empty.run before)
    (hstart.run hbefore) hblock hend
  cases hclose
  rw [← run_append] at hchained hclosed
  rw [run_append _ _ (.endIf :: after), run_cons, Call.apply]
  generalize run empty (before ++ .ifCondition condition :: body) = t at hchained hclosed ⊢
  have hstanding : Standing t.endIf.chained false t.endIf := .of_get?_eq_none rfl
  obtain ⟨later, hlater⟩ := (hstanding.run hafter).exists_chained
  refine ⟨block, segmentsOfChain later ++ [(run t.endIf after).current], ?_, hclosed⟩
  rw [segments_eq, hlater, segmentsOfChain_append, hchained, List.append_assoc]

/-- Let a run open and close blocks that are not nested, and leave no marker otherwise. All its conditions and
markers are there in the order of the calls. The markers of a closed block are each in a segment of its own, if
the block was split. Apart from conditions and markers, the parameters are those of the run without them. -/
theorem run_brackets {calls : List Call} {inside : Bool} (h : next? false calls = some inside) :
    (run empty calls).Flat ∧
    (run empty calls).conditions = (calls.filterMap Call.marker?).map .scalar ∧
    (∀ before condition body after, calls = before ++ .ifCondition condition :: body ++ .endIf :: after →
      .endIf ∉ body → ∃ block later,
        (run empty calls).segments = segmentsOfChain (run empty before).chained ++ block ++ later ∧
        IsClosedBlock condition body (run empty (before ++ .ifCondition condition :: body)).current block) ∧
    without Parameter.condition.name (run empty calls).entries =
      (run empty (calls.flatMap Call.unmarked)).entries := by
  have hstart : Standing [] false empty := .outside rfl
  have hflat : Flat empty := by simp [Flat, empty]
  have hsame : SameEntries empty empty := ⟨rfl, rfl⟩
  refine ⟨hflat.run .empty calls, conditions_run hflat .empty hstart h, ?_, (hsame.run hflat .empty h).entries_eq⟩
  rintro before condition body after rfl hend
  exact exists_block_of_run h hend

def twoBlocks : List Call :=
  [.put "width" (.scalar "50"), .ifCondition "w_gt_1", .put "crop" (.scalar "fill"), .ifElse,
    .put "crop" (.scalar "scale"), .endIf, .ifCondition "h_gt_1", .put "height" (.scalar "2"), .endIf]

theorem run_brackets_twoBlocks : next? false twoBlocks = some false ∧
    (run empty twoBlocks).conditions =
      [.scalar "w_gt_1", .scalar elseMarker, .scalar endMarker, .scalar "h_gt_1", .scalar endMarker] ∧
    without Parameter.condition.name (run empty twoBlocks).entries =
      [("width", .scalar "50"), ("crop", .scalar "fill"), ("crop", .scalar "scale"), ("height", .scalar "2")] := by
  have hn : next? false twoBlocks = some false := rfl
  obtain ⟨-, hconditions, -, hentries⟩ := run_brackets hn
  exact ⟨hn, hconditions, hentries⟩

end DeliveryPath.Transformation
