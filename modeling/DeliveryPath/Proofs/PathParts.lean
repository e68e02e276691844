import DeliveryPath.Proofs.Flattening

/-!
# The parts of a path

Without defaults, a path shows the components of its segments, each segment's own followed by the usual
responsive path where the segment is responsive. A transformation has a path unless one of its segments fails,
and its path is then made up of these parts (`Joined`).
-/

namespace DeliveryPath

/-- The path has these parts, separated by commas or slashes. -/
inductive Joined : List String → String → Prop
  | nil : Joined [] ""
  | singleton {part} : part ≠ "" → Joined [part] part
  | comma {part parts path} : part ≠ "" → parts ≠ [] → Joined parts path →
      Joined (part :: parts) (part ++ "," ++ path)
  | slash {part parts path} : part ≠ "" → parts ≠ [] → Joined parts path →
      Joined (part :: parts) (part ++ "/" ++ path)

theorem Joined.eq_empty_iff {parts : List String} {path : String} (h : Joined parts path) :
    path = "" ↔ parts = [] := by
  cases h with
  | nil => simp
  | singleton hp => simp [hp]
  | comma hp _ _ => simp [String.append_eq_empty_iff]
  | slash hp _ _ => simp [String.append_eq_empty_iff]

theorem Joined.eq_of_singleton {part path : String} (h : Joined [part] path) : path = part := by
  cases h with
  | singleton _ => rfl
  | comma _ hne _ => exact absurd rfl hne
  | slash _ hne _ => exact absurd rfl hne

theorem joined_intercalate : ∀ {parts : List String}, (∀ part ∈ parts, part ≠ "") →
    Joined parts (",".intercalate parts)
  | [], _ => .nil
  | [part], h => by
    rw [String.intercalate_singleton]
    exact .singleton (h part (List.mem_singleton_self part))
  | part :: next :: parts, h => by
    rw [String.intercalate_cons_cons]
    have hrest : ∀ p ∈ next :: parts, p ≠ "" := fun p hp => h p (List.mem_cons_of_mem part hp)
    exact .comma (h part (List.mem_cons_self ..)) (List.cons_ne_nil next parts) (joined_intercalate hrest)

theorem Joined.append_slash {ps qs : List String} {p q : String} (hp : Joined ps p) (hps : ps ≠ [])
    (hq : Joined qs q) (hqs : qs ≠ []) : Joined (ps ++ qs) (p ++ "/" ++ q) := by
  induction hp with
  | nil => exact absurd rfl hps
  | singleton hpart => exact .slash hpart hqs hq
  | @comma part _ path hpart hne _ ih =>
    have h : part ++ "," ++ path ++ "/" ++ q = part ++ "," ++ (path ++ "/" ++ q) := by
      simp only [String.append_assoc]
    rw [List.cons_append, h]
    exact .comma hpart (List.append_ne_nil_of_left_ne_nil hne qs) (ih hne)
  | @slash part _ path hpart hne _ ih =>
    have h : part ++ "/" ++ path ++ "/" ++ q = part ++ "/" ++ (path ++ "/" ++ q) := by
      simp only [String.append_assoc]
    rw [List.cons_append, h]
    exact .slash hpart (List.append_ne_nil_of_left_ne_nil hne qs) (ih hne)

theorem Joined.joinPaths {ps qs : List String} {p q : String} (hp : Joined ps p) (hq : Joined qs q) :
    Joined (ps ++ qs) (joinPaths [p, q]) := by
  by_cases hps : ps = []
  · rw [hp.eq_empty_iff.mpr hps, hps, List.nil_append, joinPaths_empty_left]
    exact hq
  by_cases hqs : qs = []
  · rw [hq.eq_empty_iff.mpr hqs, hqs, List.append_nil, joinPaths_empty_right]
    exact hp
  rw [joinPaths_pair (fun h => hps (hp.eq_empty_iff.mp h)) fun h => hqs (hq.eq_empty_iff.mp h)]
  exact hp.append_slash hps hq hqs

/-! ## One segment -/

namespace Segment

/-- What a segment shows in a path if nothing is taken over from elsewhere. -/
def parts (s : Segment) : List String :=
  (s.components {}).map Component.text ++ if s.isResponsive {} then [usualResponsivePath] else []

theorem ne_empty_of_text? {s : Segment} {p : Parameter} {text : String} (h : s.text? p = some text) : text ≠ "" := by
  unfold text? at h
  obtain ⟨v, -, hv⟩ := Option.bind_eq_some_iff.mp h
  exact (given_eq_some_iff.mp hv).2

theorem text_ne_empty_of_mem_components {c : RenderContext} {s : Segment} {component : Component}
    (h : component ∈ s.components c) : component.text ≠ "" := by
  have hsep : ∀ a b : String, a ++ "_" ++ b ≠ "" := by
    intro a b hab
    simp [String.append_eq_empty_iff] at hab
  unfold components at h
  simp only [List.mem_append, Option.mem_toList, Option.map_eq_some_iff, List.mem_map] at h
  obtain ((((⟨text, -, rfl⟩ | ⟨p, -, rfl⟩) | ⟨text, ht, rfl⟩) | ⟨p, -, rfl⟩) | ⟨text, ht, rfl⟩) := h
  · simp [Component.text, String.append_eq_empty_iff]
  · exact hsep p.1 p.2
  · exact ne_empty_of_text? ht
  · exact hsep p.1 p.2
  · exact ne_empty_of_text? ht

theorem exists_render_iff {c : RenderContext} (hc : c.responsivePath = .ok usualResponsivePath) {s : Segment} :
    (∃ r, s.render c = .ok r) ↔ s.failure? = none := by
  unfold render
  rw [hc]
  cases s.failure? with
  | some e => simp
  | none => cases s.isResponsive c <;> simp [bind, Except.bind, pure, Except.pure]

theorem joined_of_render {s : Segment} {r : Rendered} (h : s.render {} = .ok r) : Joined s.parts r.path := by
  have hown : Joined ((s.components {}).map Component.text)
      (",".intercalate ((s.components {}).map Component.text)) := by
    refine joined_intercalate ?_
    intro part hpart
    obtain ⟨component, hc, rfl⟩ := List.mem_map.mp hpart
    exact text_ne_empty_of_mem_components hc
  have hf := (exists_render_iff rfl).mp ⟨r, h⟩
  unfold render at h
  rw [hf] at h
  unfold parts
  cases hr : s.isResponsive {} with
  | false =>
    rw [hr] at h
    cases h
    exact hown.joinPaths .nil
  | true =>
    rw [hr] at h
    cases h
    exact hown.joinPaths (.singleton (by decide))

end Segment

/-! ## Transformations -/

namespace Transformation

/-- What a transformation shows in a path, in order. -/
def parts (t : Transformation) : List String := t.segments.flatMap Segment.parts

theorem generate_eq (t : Transformation) : t.generate = pathOf {} t.segments := map_path_renderIn {} t

theorem joined_of_generate {t : Transformation} {path : String} (h : t.generate = .ok path) :
    Joined t.parts path := by
  rw [generate_eq] at h
  obtain ⟨results, hr, rfl⟩ := (pathOf_ok_iff {}).mp h
  unfold parts
  clear h
  generalize t.segments = segments at hr
  induction hr with
  | nil => rw [List.map_nil, joinPaths_nil]; exact .nil
  | cons hs _ ih =>
    rw [List.flatMap_cons, List.map_cons, joinPaths_cons]
    exact (Segment.joined_of_render hs).joinPaths ih

theorem exists_generate_iff {t : Transformation} :
    (∃ path, t.generate = .ok path) ↔ ∀ s ∈ t.segments, s.failure? = none := by
  rw [generate_eq, exists_pathOf_iff]
  exact forall₂_congr fun s _ => Segment.exists_render_iff rfl

end Transformation

end DeliveryPath
