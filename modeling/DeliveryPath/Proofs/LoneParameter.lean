import Mathlib.Data.List.Nodup
import DeliveryPath.Proofs.ComponentOrder
import DeliveryPath.Proofs.Failure

/-!
# A parameter by itself

A transformation that holds one parameter, and one with a key, has one component, which is its path
(`generate_holding`). Nothing else comes into it: the other parameters are read as absent.
-/

namespace DeliveryPath

namespace Parameter

theorem eq_of_name_eq {p q : Parameter} (h : p.name = q.name) : p = q := by
  have hall : ∀ p : Parameter, p ∈ rendered ++ readOtherwise := fun p => List.mem_append.mpr p.mem_rendered_or
  have hnodup : ((rendered ++ readOtherwise).map name).Nodup := by decide
  exact List.inj_on_of_nodup_map hnodup (hall p) (hall q) h

theorem isVariableName_name (p : Parameter) : isVariableName p.name = false := by
  cases p <;> rfl

/-- The parameters that have a key of their own. -/
def keyed : List Parameter := (core ++ copied).map Prod.snd

theorem mem_keyed_of_mem_core {key : String} {p : Parameter} (h : (key, p) ∈ core) : p ∈ keyed :=
  List.mem_map.mpr ⟨_, List.mem_append_left _ h, rfl⟩

theorem mem_keyed_of_mem_copied {key : String} {p : Parameter} (h : (key, p) ∈ copied) : p ∈ keyed :=
  List.mem_map.mpr ⟨_, List.mem_append_right _ h, rfl⟩

theorem key_unique {key other : String} {p : Parameter} (h : (key, p) ∈ core ++ copied)
    (h' : (other, p) ∈ core ++ copied) : other = key :=
  congrArg Prod.fst (List.inj_on_of_nodup_map nodup_keyed h' h rfl)

theorem ne_of_mem_keyed {p q : Parameter} (hp : p ∈ keyed) (hq : q ∉ keyed) : q ≠ p := by
  rintro rfl
  exact hq hp

end Parameter

namespace Segment

/-- A segment with one parameter. -/
def holding (p : Parameter) (v : Value) : Segment := { parameters := [(p.name, v)] }

variable {p : Parameter} {v : Value}

theorem distinctKeys_holding : (holding p v).DistinctKeys := List.nodup_singleton _

theorem get?_holding (q : Parameter) : (holding p v).get? q.name = if q = p then some v else none := by
  by_cases h : q = p
  · rw [if_pos h, h]
    exact if_pos rfl
  · rw [if_neg h]
    exact if_neg fun hname => h (Parameter.eq_of_name_eq hname).symm

theorem text?_holding_of_ne {q : Parameter} (h : q ≠ p) : (holding p v).text? q = none := by
  rw [text?, get?_holding, if_neg h]
  rfl

theorem shows_holding_iff {q : Parameter} {text : String} :
    (holding p v).Shows q text ↔ q = p ∧ v.render = .ok text ∧ text ≠ "" := by
  unfold Shows
  rw [get?_holding]
  by_cases h : q = p <;> simp [h]

theorem resolved?_holding_of_ne (hp : p ∈ Parameter.keyed) {q : Parameter} (h : q ≠ p) :
    (holding p v).resolved? {} q = none := by
  have htext := text?_holding_of_ne (v := v) h
  have hsize : (holding p v).combinedSize? = none := by
    rw [combinedSize?, text?_holding_of_ne (Parameter.ne_of_mem_keyed hp (by decide))]
    rfl
  have hoffset : (holding p v).combinedOffset? = none := by
    rw [combinedOffset?, get?_holding, if_neg (Parameter.ne_of_mem_keyed hp (by decide))]
  have hget : (holding p v).get? q.name = none := by rw [get?_holding, if_neg h]
  unfold resolved?
  split <;> simp_all [dpr?, duration?, endOffset?, startOffset?, height?, width?, videoCodec?]

theorem failure?_holding (h : v.failure? = none) : (holding p v).failure? = none := by
  rw [failure?_eq_none_iff distinctKeys_holding]
  intro key w _ hw
  have hmem := (valueAt?_eq_some_iff_mem distinctKeys_holding).mp hw
  obtain ⟨-, rfl⟩ := Prod.mk.inj (List.mem_singleton.mp hmem)
  exact h

theorem mem_table_holding_iff (hp : p ∈ Parameter.keyed) {key text : String} : (key, text) ∈ (holding p v).table {} ↔
    ((key, p) ∈ Parameter.core ∧ ∃ value, (holding p v).resolved? {} p = some value ∧ text = normalize value) ∨
      (key, p) ∈ Parameter.copied ∧ v.render = .ok text ∧ text ≠ "" := by
  rw [mem_table_iff]
  constructor
  · rintro (⟨q, hq, value, hvalue, htext⟩ | ⟨q, hq, hshows⟩)
    · by_cases hqp : q = p
      · rw [hqp] at hq hvalue
        exact .inl ⟨hq, value, hvalue, htext⟩
      · rw [resolved?_holding_of_ne hp hqp] at hvalue
        cases hvalue
    · obtain ⟨rfl, hv⟩ := shows_holding_iff.mp hshows
      exact .inr ⟨hq, hv⟩
  · rintro (⟨hkey, h⟩ | ⟨hkey, h⟩)
    · exact .inl ⟨p, hkey, h⟩
    · exact .inr ⟨p, hkey, shows_holding_iff.mpr ⟨rfl, h⟩⟩

theorem table_eq_singleton {c : RenderContext} {s : Segment} {key text : String}
    (h : ∀ own shown, (own, shown) ∈ s.table c ↔ own = key ∧ shown = text) : s.table c = [(key, text)] := by
  have hnodup : (s.table c).Nodup := (pairwise_table c s).imp fun hlt heq => absurd (heq ▸ hlt) (String.lt_irrefl _)
  refine List.perm_singleton.mp ((List.perm_ext_iff_of_nodup hnodup (List.nodup_singleton _)).mpr ?_)
  rintro ⟨own, shown⟩
  rw [h, List.mem_singleton, Prod.mk.injEq]

theorem components_holding (hp : p ∈ Parameter.keyed) {key text : String}
    (h : (holding p v).table {} = [(key, text)]) : (holding p v).components {} = [.entry key text] := by
  have htext : ∀ q, q ∉ Parameter.keyed → (holding p v).text? q = none :=
    fun q hq => text?_holding_of_ne (Parameter.ne_of_mem_keyed hp hq)
  have hvariables : (holding p v).userVariables = [] := by
    simp [userVariables, holding, Parameter.isVariableName_name]
  rw [components, h, hvariables, htext _ (by decide), htext _ (by decide), htext _ (by decide)]
  rfl

theorem components_holding_core {key value : String} (hp : (key, p) ∈ Parameter.core)
    (hvalue : (holding p v).resolved? {} p = some value) :
    (holding p v).components {} = [.entry key (normalize value)] := by
  have hkeyed := Parameter.mem_keyed_of_mem_core hp
  refine components_holding hkeyed (table_eq_singleton fun own shown => ?_)
  rw [mem_table_holding_iff hkeyed]
  constructor
  · rintro (⟨hown, found, hfound, rfl⟩ | ⟨hown, -⟩)
    · rw [hvalue] at hfound
      rw [Option.some.inj hfound]
      exact ⟨Parameter.key_unique (List.mem_append_left _ hp) (List.mem_append_left _ hown), rfl⟩
    · have hsame := Parameter.key_unique (List.mem_append_left _ hp) (List.mem_append_right _ hown)
      exact absurd hsame.symm (Parameter.key_ne hp hown)
  · rintro ⟨rfl, rfl⟩
    exact .inl ⟨hp, value, hvalue, rfl⟩

theorem components_holding_copied {key text : String} (hp : (key, p) ∈ Parameter.copied) (hr : v.render = .ok text)
    (hne : text ≠ "") : (holding p v).components {} = [.entry key text] := by
  have hkeyed := Parameter.mem_keyed_of_mem_copied hp
  refine components_holding hkeyed (table_eq_singleton fun own shown => ?_)
  rw [mem_table_holding_iff hkeyed]
  constructor
  · rintro (⟨hown, -⟩ | ⟨hown, hshown, -⟩)
    · have hsame := Parameter.key_unique (List.mem_append_right _ hp) (List.mem_append_left _ hown)
      exact absurd hsame (Parameter.key_ne hown hp)
    · rw [hr] at hshown
      exact ⟨Parameter.key_unique (List.mem_append_right _ hp) (List.mem_append_right _ hown), Except.ok.inj hshown.symm⟩
  · rintro ⟨rfl, rfl⟩
    exact .inr ⟨hp, hr, hne⟩

end Segment

namespace Transformation

/-- The path of a transformation that holds nothing but one parameter. -/
theorem generate_holding {p : Parameter} {v : Value} {text key shown : String} (hr : v.render = .ok text)
    (hp : p ≠ .responsiveWidth) (h : (Segment.holding p v).components {} = [.entry key shown]) :
    (empty.add p.name v).generate = .ok (key ++ "_" ++ shown) := by
  have hsegments : (empty.add p.name v).segments = [Segment.holding p v] := rfl
  have hfailure : (Segment.holding p v).failure? = none := by
    refine Segment.failure?_holding ?_
    rw [Value.failure?, hr]
  have hresponsive : (Segment.holding p v).isResponsive {} = false := by
    rw [Segment.isResponsive, Segment.scalar?, Segment.get?_holding, if_neg hp.symm]
    rfl
  have hparts : (empty.add p.name v).parts = [key ++ "_" ++ shown] := by
    rw [parts, hsegments, List.flatMap_singleton, Segment.parts, h, hresponsive]
    rfl
  have hrendered : ∀ s ∈ (empty.add p.name v).segments, s.failure? = none := by
    rw [hsegments]
    exact List.forall_mem_singleton.mpr hfailure
  obtain ⟨path, hpath⟩ := exists_generate_iff.mpr hrendered
  have hjoined := joined_of_generate hpath
  rw [hparts] at hjoined
  rw [hpath, hjoined.eq_of_singleton]

end Transformation

end DeliveryPath
