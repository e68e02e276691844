import Mathlib.Data.List.Forall2
import DeliveryPath.Render.Transformation

/-!
# The path of a tree of segments

Rendering goes down a tree of transformations and joins paths at every node. Since empty paths leave no trace,
joining joined paths joins them all (`joinPaths_append`), so the path of a tree is that of its segments read in
order, and the first segment that fails is the error (`renderIn_eq`). How segments are grouped into
transformations does not show.
-/

namespace DeliveryPath

/-! ## Joining paths -/

theorem joinPaths_nil : joinPaths [] = "" := by simp [joinPaths]

theorem joinPaths_singleton (p : String) : joinPaths [p] = p := by
  by_cases hp : p = ""
  · simp [joinPaths, hp]
  · simp [joinPaths, hp]

theorem joinPaths_eq_empty_iff : ∀ {ps : List String}, joinPaths ps = "" ↔ ps.filter (· ≠ "") = []
  | [] => by simp [joinPaths]
  | p :: ps => by
    by_cases hp : p = ""
    · have ih := @joinPaths_eq_empty_iff ps
      unfold joinPaths at ih ⊢
      rw [List.filter_cons_of_neg (by simp [hp])]
      exact ih
    · unfold joinPaths
      rw [List.filter_cons_of_pos (by simp [hp])]
      cases ps.filter (· ≠ "") with
      | nil => simp [hp]
      | cons q qs => simp [String.append_eq_empty_iff]

theorem joinPaths_pair {p q : String} (hp : p ≠ "") (hq : q ≠ "") : joinPaths [p, q] = p ++ "/" ++ q := by
  rw [joinPaths, List.filter_cons_of_pos (by simp [hp]), List.filter_cons_of_pos (by simp [hq])]
  simp

theorem joinPaths_empty_right (p : String) : joinPaths [p, ""] = p := by
  have h : joinPaths [p, ""] = joinPaths [p] := rfl
  rw [h, joinPaths_singleton]

theorem joinPaths_empty_left (p : String) : joinPaths ["", p] = p := joinPaths_singleton p

/-- Joining in two steps is joining in one. -/
theorem joinPaths_append (ps qs : List String) : joinPaths (ps ++ qs) = joinPaths [joinPaths ps, joinPaths qs] := by
  by_cases hp : ps.filter (· ≠ "") = []
  · rw [joinPaths_eq_empty_iff.mpr hp, joinPaths_empty_left]
    unfold joinPaths
    rw [List.filter_append, hp, List.nil_append]
  by_cases hq : qs.filter (· ≠ "") = []
  · rw [joinPaths_eq_empty_iff.mpr hq, joinPaths_empty_right]
    unfold joinPaths
    rw [List.filter_append, hq, List.append_nil]
  have hp' : joinPaths ps ≠ "" := fun h => hp (joinPaths_eq_empty_iff.mp h)
  have hq' : joinPaths qs ≠ "" := fun h => hq (joinPaths_eq_empty_iff.mp h)
  rw [joinPaths_pair hp' hq']
  unfold joinPaths
  rw [List.filter_append, String.intercalate_append_of_ne_nil hp hq]

theorem joinPaths_cons (p : String) (ps : List String) : joinPaths (p :: ps) = joinPaths [p, joinPaths ps] := by
  have h := joinPaths_append [p] ps
  rw [joinPaths_singleton] at h
  exact h

theorem joinPaths_concat (ps : List String) (p : String) : joinPaths (ps ++ [p]) = joinPaths [joinPaths ps, p] := by
  rw [joinPaths_append, joinPaths_singleton]

/-! ## Reading results one after the other -/

section
variable {α β ε : Type} {f : α → Except ε β}

theorem map_ok_iff {g : α → β} {x : Except ε α} {b : β} : x.map g = .ok b ↔ ∃ a, x = .ok a ∧ b = g a := by
  cases x <;> simp [Except.map, eq_comm]

theorem exists_map_ok_iff {g : α → β} {x : Except ε α} : (∃ b, x.map g = .ok b) ↔ ∃ a, x = .ok a := by
  cases x <;> simp [Except.map]

theorem map_error_iff {g : α → β} {x : Except ε α} {e : ε} : x.map g = .error e ↔ x = .error e := by
  cases x <;> simp [Except.map]

theorem mapM_ok_iff : ∀ {as : List α} {bs : List β},
    as.mapM f = .ok bs ↔ List.Forall₂ (fun a b => f a = .ok b) as bs
  | [], bs => by
    rw [List.mapM_nil]
    constructor
    · intro h; cases h; exact .nil
    · intro h; cases h; rfl
  | a :: as, bs => by
    rw [List.mapM_cons]
    constructor
    · intro h
      cases ha : f a with
      | error e => rw [ha] at h; cases h
      | ok b =>
        cases hs : as.mapM f with
        | error e => rw [ha, hs] at h; cases h
        | ok rest =>
          rw [ha, hs] at h
          cases h
          exact .cons ha (mapM_ok_iff.mp hs)
    · intro h
      cases h with
      | cons ha hs => rw [ha, mapM_ok_iff.mpr hs]; rfl

theorem exists_of_mem_mapM {as : List α} {bs : List β} (h : as.mapM f = .ok bs) {b : β} (hb : b ∈ bs) :
    ∃ a ∈ as, f a = .ok b := by
  rw [mapM_ok_iff] at h
  induction h with
  | nil => cases hb
  | cons ha _ ih =>
    rcases List.mem_cons.mp hb with rfl | hb
    · exact ⟨_, List.mem_cons_self .., ha⟩
    · obtain ⟨a, hmem, ha⟩ := ih hb
      exact ⟨a, List.mem_cons_of_mem _ hmem, ha⟩

theorem exists_mapM_ok_iff : ∀ {as : List α}, (∃ bs, as.mapM f = .ok bs) ↔ ∀ a ∈ as, ∃ b, f a = .ok b
  | [] => by
    rw [List.mapM_nil]
    exact iff_of_true ⟨[], rfl⟩ (List.forall_mem_nil _)
  | a :: as => by
    rw [List.forall_mem_cons, ← exists_mapM_ok_iff]
    simp only [mapM_ok_iff]
    constructor
    · rintro ⟨-, ha | ⟨ha, hs⟩⟩
      exact ⟨⟨_, ha⟩, _, hs⟩
    · rintro ⟨⟨b, ha⟩, bs, hs⟩
      exact ⟨b :: bs, .cons ha hs⟩

/-- The first element that fails decides the error. -/
theorem mapM_error_iff {e : ε} : ∀ {as : List α},
    as.mapM f = .error e ↔
      ∃ earlier a later, as = earlier ++ a :: later ∧ (∀ b ∈ earlier, ∃ r, f b = .ok r) ∧ f a = .error e
  | [] => by
    rw [List.mapM_nil]
    constructor
    · intro h; cases h
    · rintro ⟨earlier, a, later, h, -⟩
      exact absurd h.symm (by simp)
  | a :: as => by
    rw [List.mapM_cons]
    constructor
    · intro h
      cases ha : f a with
      | error e' =>
        rw [ha] at h
        cases h
        exact ⟨[], a, as, rfl, by simp, ha⟩
      | ok b =>
        cases hs : as.mapM f with
        | ok rest => rw [ha, hs] at h; cases h
        | error e' =>
          rw [ha, hs] at h
          cases h
          obtain ⟨earlier, a', later, rfl, hok, herr⟩ := mapM_error_iff.mp hs
          refine ⟨a :: earlier, a', later, rfl, ?_, herr⟩
          intro b' hb
          rcases List.mem_cons.mp hb with rfl | hb
          · exact ⟨b, ha⟩
          · exact hok b' hb
    · rintro ⟨earlier, a', later, h, hok, herr⟩
      cases earlier with
      | nil =>
        cases h
        rw [herr]; rfl
      | cons b earlier =>
        rw [List.cons_append, List.cons.injEq] at h
        obtain ⟨rfl, rfl⟩ := h
        obtain ⟨r, hr⟩ := hok a (by simp)
        have hs : (earlier ++ a' :: later).mapM f = .error e :=
          mapM_error_iff.mpr ⟨earlier, a', later, rfl, fun b hb => hok b (by simp [hb]), herr⟩
        rw [hr, hs]; rfl

end

/-! ## Segments that show nothing -/

theorem Segment.components_empty {c : RenderContext} (hd : c.dpr = none) : ({} : Segment).components c = [] := by
  have ht : ∀ p, ({} : Segment).text? p = none := fun _ => rfl
  simp [components, userVariables, table, expressions, copies, ht, dpr?, hd, duration?, endOffset?, startOffset?,
    height?, width?, videoCodec?, combinedSize?, combinedOffset?, get?, valueAt?, Parameter.verbatim]

/-! ## Segments in order -/

namespace Transformation

section
variable (c : RenderContext)

/-- The path of segments one after the other. -/
def pathOf (segments : List Segment) : Except Error String :=
  (segments.mapM (Segment.render c)).map fun parts => joinPaths (parts.map Rendered.path)

theorem pathOf_nil : pathOf c [] = .ok "" := by
  unfold pathOf; rw [List.mapM_nil]; exact congrArg Except.ok joinPaths_nil

theorem pathOf_singleton (s : Segment) : pathOf c [s] = (s.render c).map Rendered.path := by
  unfold pathOf
  rw [List.mapM_cons, List.mapM_nil]
  cases s.render c with
  | error e => rfl
  | ok own => exact congrArg Except.ok (joinPaths_singleton own.path)

theorem pathOf_append (ss us : List Segment) : pathOf c (ss ++ us) = do
    let earlier ← pathOf c ss
    let later ← pathOf c us
    return joinPaths [earlier, later] := by
  unfold pathOf
  rw [List.mapM_append]
  cases ss.mapM (Segment.render c) with
  | error e => rfl
  | ok parts =>
    cases us.mapM (Segment.render c) with
    | error e => rfl
    | ok rest =>
      show Except.ok (joinPaths ((parts ++ rest).map Rendered.path)) = _
      rw [List.map_append, joinPaths_append]; rfl

theorem pathOf_ok_iff {segments : List Segment} {path : String} : pathOf c segments = .ok path ↔ ∃ parts,
    List.Forall₂ (fun s p => Segment.render c s = .ok p) segments parts ∧
      path = joinPaths (parts.map Rendered.path) := by
  simp only [pathOf, map_ok_iff, mapM_ok_iff]

theorem pathOf_error_iff {segments : List Segment} {e : Error} : pathOf c segments = .error e ↔
    ∃ earlier s later, segments = earlier ++ s :: later ∧ (∀ p ∈ earlier, ∃ r, Segment.render c p = .ok r) ∧
      Segment.render c s = .error e := by
  rw [pathOf, map_error_iff, mapM_error_iff]

theorem exists_pathOf_iff {segments : List Segment} :
    (∃ path, pathOf c segments = .ok path) ↔ ∀ s ∈ segments, ∃ r, Segment.render c s = .ok r := by
  simp only [← exists_mapM_ok_iff, mapM_ok_iff, pathOf_ok_iff]
  constructor
  · rintro ⟨path, parts, hs, -⟩
    exact ⟨parts, hs⟩
  · rintro ⟨parts, hs⟩
    exact ⟨_, parts, hs, rfl⟩

mutual

/-- A tree renders as its segments do one after the other: their paths are joined, all else is the open one's. -/
theorem renderIn_eq : ∀ t : Transformation, renderIn c t = do
    let earlier ← pathOf c (segmentsOfChain t.chained)
    let own ← t.current.render c
    return { own with path := joinPaths [earlier, own.path] }
  | ⟨chained, current⟩ => by
    rw [renderIn, ← pathsIn_eq chained]
    cases pathsIn c chained with
    | error e => rfl
    | ok paths =>
      cases current.render c with
      | error e => rfl
      | ok own => exact congrArg (fun path => Except.ok { own with path }) (joinPaths_concat paths own.path)

theorem pathsIn_eq : ∀ ts : List Transformation,
    (pathsIn c ts).map joinPaths = pathOf c (segmentsOfChain ts)
  | [] => by rw [segmentsOfChain, pathOf_nil]; exact congrArg Except.ok joinPaths_nil
  | t :: ts => by
    rw [pathsIn, segmentsOfChain, pathOf_append, segments_eq, pathOf_append, pathOf_singleton, ← pathsIn_eq ts,
      renderIn_eq t]
    cases pathOf c (segmentsOfChain t.chained) with
    | error e => rfl
    | ok earlier =>
      cases t.current.render c with
      | error e => rfl
      | ok own =>
        cases pathsIn c ts with
        | error e => rfl
        | ok paths => exact congrArg Except.ok (joinPaths_cons (joinPaths [earlier, own.path]) paths)

end

theorem map_path_renderIn (t : Transformation) : (renderIn c t).map Rendered.path = pathOf c t.segments := by
  rw [segments_eq, pathOf_append, pathOf_singleton, renderIn_eq]
  cases pathOf c (segmentsOfChain t.chained) with
  | error e => rfl
  | ok earlier =>
    cases t.current.render c with
    | error e => rfl
    | ok own => rfl

theorem renderIn_ok_iff {t : Transformation} {r : Rendered} : renderIn c t = .ok r ↔ ∃ parts own,
    List.Forall₂ (fun s p => Segment.render c s = .ok p) (segmentsOfChain t.chained) parts ∧
      t.current.render c = .ok own ∧
      r = { own with path := joinPaths (parts.map Rendered.path ++ [own.path]) } := by
  rw [renderIn_eq]
  constructor
  · intro h
    cases hs : pathOf c (segmentsOfChain t.chained) with
    | error e => rw [hs] at h; cases h
    | ok earlier =>
      cases ho : t.current.render c with
      | error e => rw [hs, ho] at h; cases h
      | ok own =>
        rw [hs, ho] at h
        cases h
        obtain ⟨parts, hp, rfl⟩ := (pathOf_ok_iff c).mp hs
        exact ⟨parts, own, hp, rfl, by rw [joinPaths_concat]⟩
  · rintro ⟨parts, own, hp, ho, rfl⟩
    rw [(pathOf_ok_iff c).mpr ⟨parts, hp, rfl⟩, ho, joinPaths_concat]; rfl

theorem renderIn_error_iff {t : Transformation} {e : Error} :
    renderIn c t = .error e ↔ pathOf c t.segments = .error e := by
  rw [← map_path_renderIn, map_error_iff]

end

/-! ## Segments that leave no trace -/

section
variable {c : RenderContext} (hd : c.dpr = none) (hr : c.responsive = false)
include hd hr

/-- Without defaults, a segment without parameters shows nothing. -/
theorem pathOf_empty_segment : pathOf c [({} : Segment)] = .ok "" := by
  have hf : ({} : Segment).failure? = none := rfl
  have hs : ({} : Segment).isResponsive c = false := hr
  rw [pathOf_singleton]
  simp only [Segment.render, hf, hs, Segment.components_empty hd]
  rfl

theorem pathOf_skip_empty (ss us : List Segment) : pathOf c (ss ++ {} :: us) = pathOf c (ss ++ us) := by
  have h : ∀ p : Except Error String, (do let q ← p; return joinPaths ["", q] : Except Error String) = p := by
    intro p
    cases p with
    | error e => rfl
    | ok q => exact congrArg Except.ok (joinPaths_singleton q)
  have hu : pathOf c ({} :: us) = pathOf c us := by
    rw [← List.singleton_append, pathOf_append, pathOf_empty_segment hd hr]
    exact h _
  rw [pathOf_append, hu, ← pathOf_append]

theorem pathOf_regroup (groups : List (List Transformation)) :
    pathOf c (segmentsOfChain (groups.map ofChain)) = pathOf c (segmentsOfChain groups.flatten) := by
  induction groups with
  | nil => rfl
  | cons ts groups ih =>
    rw [List.map_cons, segmentsOfChain, segments_ofChain, List.append_assoc, List.singleton_append,
      pathOf_skip_empty hd hr, List.flatten_cons, segmentsOfChain_append, pathOf_append, ih, ← pathOf_append]

end

/-! ## The flattening law -/

/-- **Only the segments in order matter.** A transformation renders to the joined paths of its segments and the
rest of the open one's result, or to the error of the first segment that fails. Without defaults, neither closing
the open segment nor putting segments together in chains of their own changes the path. -/
theorem render_flattens (d : Defaults) (t : Transformation) :
    (∀ r, t.render d = .ok r ↔ ∃ parts own,
      List.Forall₂ (fun s p => Segment.render d.context s = .ok p) (segmentsOfChain t.chained) parts ∧
        t.current.render d.context = .ok own ∧
        r = { own with path := joinPaths (parts.map Rendered.path ++ [own.path]) }) ∧
    (∀ e, t.render d = .error e ↔ ∃ earlier s later,
      t.segments = earlier ++ s :: later ∧ (∀ p ∈ earlier, ∃ r, Segment.render d.context p = .ok r) ∧
        s.render d.context = .error e) ∧
    (d.dpr = none → d.responsive = false →
      (t.chain.render d).map Rendered.path = (t.render d).map Rendered.path ∧
      (∀ first second,
        (ofChain [ofChain first, ofChain second]).render d = (ofChain (first ++ second)).render d) ∧
      ∀ groups : List (List Transformation),
        (ofChain (groups.map ofChain)).render d = (ofChain groups.flatten).render d) := by
  refine ⟨fun r => renderIn_ok_iff d.context, fun e => ?_, fun hd hr => ?_⟩
  · exact (renderIn_error_iff d.context).trans (pathOf_error_iff d.context)
  have hd : d.context.dpr = none := hd
  have hr : d.context.responsive = false := hr
  have hgroups : ∀ groups : List (List Transformation),
      (ofChain (groups.map ofChain)).render d = (ofChain groups.flatten).render d := by
    intro groups
    show renderIn d.context _ = renderIn d.context _
    rw [renderIn_eq, renderIn_eq]
    show (do let earlier ← pathOf d.context (segmentsOfChain (groups.map ofChain)); _) = _
    rw [pathOf_regroup hd hr]; rfl
  refine ⟨?_, fun first second => ?_, hgroups⟩
  · show (renderIn d.context _).map _ = (renderIn d.context _).map _
    rw [map_path_renderIn, map_path_renderIn, segments_chain, pathOf_skip_empty hd hr, List.append_nil]
  · have h := hgroups [first, second]
    rw [List.flatten_cons, List.flatten_cons, List.flatten_nil, List.append_nil] at h
    exact h

/-- A chain within a chain, with a segment that shows nothing in the middle. -/
def nestedChain : Transformation :=
  (ofChain [ofChain [empty.set .effect "sepia", empty, empty.set .angle "90"], empty.set .crop "fill"]).set
    .quality "auto"

/-- A path, and no size for a tag. -/
def plain (path : String) : Rendered := ⟨path, none, none, false, false⟩

theorem render_flattens_nestedChain : ({} : Defaults).dpr = none ∧ ({} : Defaults).responsive = false ∧
    nestedChain.render {} = .ok (plain "e_sepia/a_90/c_fill/q_auto") ∧
    (nestedChain.chain.render {}).map Rendered.path = .ok "e_sepia/a_90/c_fill/q_auto" := by
  obtain ⟨hok, -, hchain⟩ := render_flattens {} nestedChain
  have hparts : List.Forall₂ (fun s p => Segment.render (Defaults.context {}) s = .ok p)
      (segmentsOfChain nestedChain.chained) (["e_sepia", "", "a_90", "", "c_fill"].map plain) :=
    .cons (by decide +kernel) (.cons (by decide +kernel) (.cons (by decide +kernel)
      (.cons (by decide +kernel) (.cons (by decide +kernel) .nil))))
  have hown : Segment.render (Defaults.context {}) nestedChain.current = .ok (plain "q_auto") := by decide +kernel
  have hjoin : "e_sepia/a_90/c_fill/q_auto" = joinPaths ["e_sepia", "", "a_90", "", "c_fill", "q_auto"] := by decide
  have hrender : nestedChain.render {} = .ok (plain "e_sepia/a_90/c_fill/q_auto") :=
    (hok _).mpr ⟨_, _, hparts, hown, congrArg plain hjoin⟩
  refine ⟨rfl, rfl, hrender, ?_⟩
  rw [(hchain rfl rfl).1, hrender]
  rfl

end Transformation

end DeliveryPath
