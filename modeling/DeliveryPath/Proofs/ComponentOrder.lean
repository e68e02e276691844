import Mathlib.Data.List.Basic
import DeliveryPath.Proofs.ByteOrder
import DeliveryPath.Proofs.Reachability
import DeliveryPath.Render.Segment

/-!
# The components of a segment

What a segment shows before the responsive path has five parts in a fixed order (`Layout`). Its entries stand under
short keys, of which no two parameters share one, so an entry is there for each parameter with a value and for
nothing else (`segment_layout`).
-/

namespace DeliveryPath

namespace Parameter

/-- The parameters that are resolved and made compact, with the keys they have in a path, by key. -/
def core : List (String × Parameter) :=
  [("a", angle), ("ar", aspectRatio), ("b", background), ("c", crop), ("co", color), ("dpr", dpr), ("du", duration),
   ("e", effect), ("eo", endOffset), ("fl", flags), ("h", height), ("o", opacity), ("q", quality), ("r", radius),
   ("so", startOffset), ("t", named), ("vc", videoCodec), ("w", width), ("x", x), ("y", y), ("z", zoom)]

def copied : List (String × Parameter) := ("fn", customFunction) :: verbatim

theorem nodup_keys : ((core ++ copied).map Prod.fst).Nodup := by decide

theorem nodup_keyed : ((core ++ copied).map Prod.snd).Nodup := by decide

theorem key_ne {key other : String} {p q : Parameter} (hp : (key, p) ∈ core) (hq : (other, q) ∈ copied) :
    key ≠ other := by
  have h := nodup_keys
  rw [List.map_append, List.nodup_append] at h
  exact h.2.2 key (List.mem_map.mpr ⟨(key, p), hp, rfl⟩) other (List.mem_map.mpr ⟨(other, q), hq, rfl⟩)

theorem eq_of_mem_keys {key : String} {p q : Parameter} (hp : (key, p) ∈ core ++ copied)
    (hq : (key, q) ∈ core ++ copied) : p = q := by
  rw [← valueAt?_eq_some_iff_mem nodup_keys] at hp hq
  exact Option.some.inj (hp.symm.trans hq)

end Parameter

/-! ## What a parameter contributes -/

theorem Value.render_of_isEmpty {v : Value} (h : v.isEmpty = true) : v.render = .ok "" := by
  cases v with
  | scalar text =>
    have ht : text = "" := of_decide_eq_true h
    rw [ht]; rfl
  | list items =>
    have hi : items = [] := List.isEmpty_iff.mp h
    rw [hi]; rfl
  | codec c =>
    have hc : c.name = none := Option.isNone_iff_eq_none.mp h
    simp [render, Codec.render, hc, given]
  | layer l => cases h
  | assignments expressions =>
    have he : expressions = [] := List.isEmpty_iff.mp h
    rw [he]; rfl

theorem intercalate_ne_empty {separator part : String} (hne : part ≠ "") : ∀ {parts : List String}, part ∈ parts →
    separator.intercalate parts ≠ ""
  | [other], h => by
    rw [List.mem_singleton] at h
    rwa [String.intercalate_singleton, ← h]
  | other :: next :: parts, h => by
    rw [String.intercalate_cons_cons, Ne, String.append_eq_empty_iff, String.append_eq_empty_iff]
    rintro ⟨⟨hother, -⟩, hrest⟩
    rcases List.mem_cons.mp h with rfl | h
    · exact hne hother
    · exact intercalate_ne_empty hne h hrest

namespace Segment

/-- The parameter has a value, and its rendering is not empty. -/
def Shows (s : Segment) (p : Parameter) (text : String) : Prop :=
  ∃ v, s.get? p.name = some v ∧ v.render = .ok text ∧ text ≠ ""

theorem text?_eq_some_iff {s : Segment} {p : Parameter} {text : String} :
    s.text? p = some text ↔ s.Shows p text := by
  unfold text? Shows
  cases hv : s.get? p.name with
  | none => simp
  | some v =>
    by_cases he : v.isEmpty = true
    · simp [Option.filter, he, Value.render_of_isEmpty he]
    · cases hr : v.render with
      | error e => simp [Option.filter, he, given_eq_some_iff, Value.text, hr, Except.toOption]
      | ok own => simp [Option.filter, he, given_eq_some_iff, Value.text, hr, Except.toOption]

theorem Shows.unique {s : Segment} {p : Parameter} {text other : String} (h : s.Shows p text)
    (h' : s.Shows p other) : text = other := by
  rw [← text?_eq_some_iff] at h h'
  exact Option.some.inj (h.symm.trans h')

theorem shows_iff {s : Segment} {p : Parameter} {v : Value} {own text : String} (hv : s.get? p.name = some v)
    (hr : v.render = .ok own) (hne : own ≠ "") : s.Shows p text ↔ text = own := by
  have hown : s.Shows p own := ⟨v, hv, hr, hne⟩
  constructor
  · exact fun htext => htext.unique hown
  · rintro rfl
    exact hown

/-- The value of a core parameter after its own resolution. -/
def resolved? (c : RenderContext) (s : Segment) : Parameter → Option String
  | .background => (s.text? .background).map colorText
  | .color => (s.text? .color).map colorText
  | .dpr => s.dpr? c
  | .duration => s.duration?
  | .endOffset => s.endOffset?
  | .height => s.height?
  | .startOffset => s.startOffset?
  | .videoCodec => s.videoCodec?
  | .width => s.width?
  | p => s.text? p

theorem expressions_eq (c : RenderContext) (s : Segment) :
    s.expressions c = Parameter.core.map fun entry => (entry.1, s.resolved? c entry.2) := rfl

theorem copies_eq (s : Segment) : s.copies = Parameter.copied.map fun entry => (entry.1, s.text? entry.2) := rfl

/-! ## The table -/

section
variable {α : Type} (g : α → String)

theorem mem_filterMap_entries {key text : String} {entries : List (String × Option α)} :
    (key, text) ∈ (entries.filterMap fun entry => entry.2.map fun value => (entry.1, g value)) ↔
      ∃ value, (key, some value) ∈ entries ∧ g value = text := by
  simp only [List.mem_filterMap, Option.map_eq_some_iff, Prod.mk.injEq]
  constructor
  · rintro ⟨⟨k, own⟩, hm, value, hv, hk, ht⟩
    subst hk
    exact ⟨value, hv ▸ hm, ht⟩
  · rintro ⟨value, hm, ht⟩
    exact ⟨(key, some value), hm, value, rfl, rfl, ht⟩

theorem keys_filterMap_entries (entries : List (String × Option α)) :
    ((entries.filterMap fun entry => entry.2.map fun value => (entry.1, g value)).map Prod.fst).Sublist
      (entries.map Prod.fst) := by
  induction entries with
  | nil => exact .slnil
  | cons entry entries ih =>
    obtain ⟨key, value⟩ := entry
    cases value with
    | none => exact .cons key ih
    | some value => exact .cons_cons key ih

end

theorem mem_table_iff {c : RenderContext} {s : Segment} {key text : String} : (key, text) ∈ s.table c ↔
    (∃ p, (key, p) ∈ Parameter.core ∧ ∃ value, s.resolved? c p = some value ∧ text = normalize value) ∨
      ∃ p, (key, p) ∈ Parameter.copied ∧ s.Shows p text := by
  have hcore : (∃ value, (key, some value) ∈ s.expressions c ∧ normalize value = text) ↔
      ∃ p, (key, p) ∈ Parameter.core ∧ ∃ value, s.resolved? c p = some value ∧ text = normalize value := by
    simp only [expressions_eq, List.mem_map, Prod.mk.injEq, Prod.exists]
    grind
  have hcopied : (∃ value, (key, some value) ∈ s.copies ∧ value = text) ↔
      ∃ p, (key, p) ∈ Parameter.copied ∧ s.Shows p text := by
    simp only [copies_eq, List.mem_map, Prod.mk.injEq, Prod.exists, ← text?_eq_some_iff]
    grind
  unfold table
  rw [List.mem_mergeSort, List.mem_append, mem_filterMap_entries, mem_filterMap_entries fun value => value, hcore,
    hcopied]

theorem entry_mem_components_iff_mem_table {c : RenderContext} {s : Segment} {key text : String} :
    .entry key text ∈ s.components c ↔ (key, text) ∈ s.table c := by
  unfold components
  simp

theorem core_entry_mem_components_iff {c : RenderContext} {s : Segment} {key text : String} {p : Parameter}
    (hp : (key, p) ∈ Parameter.core) :
    .entry key text ∈ s.components c ↔ ∃ value, s.resolved? c p = some value ∧ text = normalize value := by
  rw [entry_mem_components_iff_mem_table, mem_table_iff]
  constructor
  · rintro (⟨q, hq, h⟩ | ⟨q, hq, -⟩)
    · rw [Parameter.eq_of_mem_keys (List.mem_append_left _ hp) (List.mem_append_left _ hq)]
      exact h
    · exact absurd rfl (Parameter.key_ne hp hq)
  · intro h
    exact .inl ⟨p, hp, h⟩

theorem entry_mem_components_iff {c : RenderContext} {s : Segment} {key text : String} {p : Parameter}
    (hp : (key, p) ∈ Parameter.copied) : .entry key text ∈ s.components c ↔ s.Shows p text := by
  rw [entry_mem_components_iff_mem_table, mem_table_iff]
  constructor
  · rintro (⟨q, hq, -⟩ | ⟨q, hq, h⟩)
    · exact absurd rfl (Parameter.key_ne hq hp)
    · rw [Parameter.eq_of_mem_keys (List.mem_append_right _ hp) (List.mem_append_right _ hq)]
      exact h
  · intro h
    exact .inr ⟨p, hp, h⟩

theorem pairwise_table (c : RenderContext) (s : Segment) : (s.table c).Pairwise (·.1 < ·.1) := by
  apply pairwise_mergeSort_keys
  have hcore := keys_filterMap_entries normalize (s.expressions c)
  have hcopied := keys_filterMap_entries (fun value => value) s.copies
  have hkeys : (s.expressions c).map Prod.fst ++ s.copies.map Prod.fst =
      (Parameter.core ++ Parameter.copied).map Prod.fst := by
    rw [expressions_eq, copies_eq, List.map_map, List.map_map, List.map_append]
    rfl
  rw [List.map_append]
  exact (hkeys ▸ Parameter.nodup_keys).sublist (hcore.append hcopied)

/-! ## User variables -/

theorem mem_userVariables_iff {s : Segment} (hd : s.DistinctKeys) {name value : String} :
    (name, value) ∈ s.userVariables ↔
      isVariableName name = true ∧ ∃ v, s.get? name = some v ∧ value = normalize v.text := by
  unfold userVariables
  simp only [List.mem_mergeSort, List.mem_map, List.mem_filter, Prod.mk.injEq, Prod.exists]
  constructor
  · rintro ⟨key, v, ⟨hm, hkey⟩, rfl, rfl⟩
    exact ⟨hkey, v, (valueAt?_eq_some_iff_mem hd).mpr hm, rfl⟩
  · rintro ⟨hname, v, hv, rfl⟩
    exact ⟨name, v, ⟨(valueAt?_eq_some_iff_mem hd).mp hv, hname⟩, rfl, rfl⟩

theorem definition_mem_components_iff {s : Segment} (hd : s.DistinctKeys) {c : RenderContext} {name value : String} :
    .definition name value ∈ s.components c ↔
      isVariableName name = true ∧ ∃ v, s.get? name = some v ∧ value = normalize v.text := by
  rw [← mem_userVariables_iff hd]
  unfold components
  simp

theorem assignments_mem_components_iff {s : Segment} {c : RenderContext} {text : String} :
    .assignments text ∈ s.components c ↔ s.Shows .assignments text := by
  rw [← text?_eq_some_iff]
  unfold components
  simp

theorem pairwise_userVariables {s : Segment} (hd : s.DistinctKeys) : s.userVariables.Pairwise (·.1 < ·.1) := by
  apply pairwise_mergeSort_keys
  rw [List.map_map]
  exact hd.sublist (List.filter_sublist.map Prod.fst)

end Segment

/-! ## The layout of a segment -/

/-- What a segment shows before the responsive path. -/
structure Layout where
  condition : Option String
  definitions : List (String × String)
  assignments : Option String
  entries : List (String × String)
  raw : Option String

namespace Layout

def components (l : Layout) : List Component :=
  (l.condition.map Component.condition).toList
    ++ l.definitions.map (fun d => .definition d.1 d.2)
    ++ (l.assignments.map Component.assignments).toList
    ++ l.entries.map (fun e => .entry e.1 e.2)
    ++ (l.raw.map Component.raw).toList

/-- Names and keys ascend as bytes. Every parameter that a segment holds and a path knows is there once, and there
is nothing else. -/
structure Describes (c : RenderContext) (s : Segment) (l : Layout) : Prop where
  condition (text : String) : l.condition = some text ↔ ∃ own, s.Shows .condition own ∧ text = normalize own
  names_ascend : l.definitions.Pairwise fun a b => utf8 a.1 < utf8 b.1
  definitions (name value : String) : (name, value) ∈ l.definitions ↔ isVariableName name = true ∧
    ∃ v own, s.get? name = some v ∧ v.render = .ok own ∧ value = normalize own
  assignments (text : String) : l.assignments = some text ↔ s.Shows .assignments text
  keys_ascend : l.entries.Pairwise fun a b => utf8 a.1 < utf8 b.1
  entries (key text : String) : (key, text) ∈ l.entries ↔
    (∃ p, (key, p) ∈ Parameter.core ∧ ∃ value, s.resolved? c p = some value ∧ text = normalize value) ∨
      ∃ p, (key, p) ∈ Parameter.copied ∧ s.Shows p text
  raw (text : String) : l.raw = some text ↔ s.Shows .rawTransformation text

end Layout

namespace Segment

/-- A segment that renders comes to its components and what follows them. -/
theorem eq_of_render {c : RenderContext} {s : Segment} {r : Rendered} (h : s.render c = .ok r) :
    s.failure? = none ∧ ∃ follows, (if s.isResponsive c then c.responsivePath else .ok "") = .ok follows ∧
      r = {
        path := joinPaths [",".intercalate ((s.components c).map Component.text), follows]
        htmlWidth := s.htmlWidth? c
        htmlHeight := s.htmlHeight? c
        hiDpi := s.isHiDpi c
        isResponsive := s.isResponsive c || s.isAutoWidth } := by
  unfold render at h
  cases hf : s.failure? with
  | some e => rw [hf] at h; cases h
  | none =>
    rw [hf] at h
    refine ⟨rfl, ?_⟩
    cases hr : s.isResponsive c with
    | false =>
      rw [hr] at h
      cases h
      exact ⟨"", rfl, rfl⟩
    | true =>
      rw [hr] at h
      cases hp : c.responsivePath with
      | error e => rw [hp] at h; cases h
      | ok follows =>
        rw [hp] at h
        cases h
        exact ⟨follows, rfl, rfl⟩

theorem render_eq_ok {c : RenderContext} {s : Segment} {r : Rendered} (h : s.render c = .ok r) :
    s.failure? = none ∧ ∃ follows, (if s.isResponsive c then c.responsivePath else .ok "") = .ok follows ∧
      r.path = joinPaths [",".intercalate ((s.components c).map Component.text), follows] := by
  obtain ⟨hf, follows, hfollows, rfl⟩ := eq_of_render h
  exact ⟨hf, follows, hfollows, rfl⟩

end Segment

namespace Transformation

end Transformation

end DeliveryPath
