import DeliveryPath.Proofs.ComponentOrder
import DeliveryPath.Proofs.Flattening
import DeliveryPath.Proofs.ParameterMap
import DeliveryPath.Proofs.Reading

/-!
# The order of parameters

A segment is read by looking up keys and by sorting the user variables, so the order of its parameters does not
show. Two transformations that differ in such orders only render to the same result, or both fail; which error
it is may depend on the order of the user variables. Setters for different slots change a segment the same way
in any order, up to the order of parameters (`render_canonical`).
-/

namespace DeliveryPath

/-! ## Segments -/

namespace Segment

structure Rearranged (s u : Segment) : Prop where
  parameters : s.parameters.Perm u.parameters
  htmlWidth : s.htmlWidth = u.htmlWidth
  htmlHeight : s.htmlHeight = u.htmlHeight

theorem Rearranged.refl (s : Segment) : s.Rearranged s := ⟨.refl _, rfl, rfl⟩

theorem Rearranged.trans {s u v : Segment} (h : s.Rearranged u) (h' : u.Rearranged v) : s.Rearranged v :=
  ⟨h.parameters.trans h'.parameters, h.htmlWidth.trans h'.htmlWidth, h.htmlHeight.trans h'.htmlHeight⟩

theorem Rearranged.distinctKeys {s u : Segment} (h : s.Rearranged u) (hd : s.DistinctKeys) : u.DistinctKeys :=
  (h.parameters.map Prod.fst).nodup_iff.mp hd

/-- Segments with distinct keys are the same up to order if look-ups find the same in them. -/
theorem rearranged_iff {s u : Segment} (hd : s.DistinctKeys) (hd' : u.DistinctKeys) : s.Rearranged u ↔
    (∀ key, s.get? key = u.get? key) ∧ s.htmlWidth = u.htmlWidth ∧ s.htmlHeight = u.htmlHeight := by
  constructor
  · intro h
    exact ⟨(perm_iff_valueAt? hd hd').mp h.parameters, h.htmlWidth, h.htmlHeight⟩
  · rintro ⟨hget, hw, hh⟩
    exact ⟨(perm_iff_valueAt? hd hd').mpr hget, hw, hh⟩

namespace Rearranged
variable {s u : Segment}

theorem userVariables_eq (h : s.Rearranged u) (hd : s.DistinctKeys) : s.userVariables = u.userVariables := by
  have hperm := (h.parameters.filter (isVariableName ·.1)).map fun p => (p.1, normalize p.2.text)
  have hsorted : s.userVariables.Perm u.userVariables :=
    (List.mergeSort_perm _ _).trans (hperm.trans (List.mergeSort_perm _ _).symm)
  exact eq_of_pairwise_keys hsorted (pairwise_userVariables hd) (pairwise_userVariables (h.distinctKeys hd))

theorem noticed?_eq (h : s.Rearranged u) (hd : s.DistinctKeys) (p : Parameter) : s.noticed? p = u.noticed? p := by
  unfold noticed?
  rw [((rearranged_iff hd (h.distinctKeys hd)).mp h).1]

theorem valuesRead_perm (h : s.Rearranged u) (hd : s.DistinctKeys) : s.valuesRead.Perm u.valuesRead := by
  have hget := ((rearranged_iff hd (h.distinctKeys hd)).mp h).1
  unfold valuesRead
  simp only [hget]
  exact (((h.parameters.filter _).map _).append_left _).append_right _

theorem failure?_eq_none_iff (h : s.Rearranged u) (hd : s.DistinctKeys) : s.failure? = none ↔ u.failure? = none := by
  unfold failure?
  rw [List.findSome?_eq_none_iff, List.findSome?_eq_none_iff]
  simp only [(h.valuesRead_perm hd).mem_iff]

theorem render_eq (h : s.Rearranged u) (hd : s.DistinctKeys) (c : RenderContext) :
    (s.render c).toOption = (u.render c).toOption := by
  have hf := h.failure?_eq_none_iff hd
  cases hs : s.failure? with
  | none =>
    have hu := hf.mp hs
    rw [render_congr (h.noticed?_eq hd) (h.userVariables_eq hd) (hs.trans hu.symm) h.htmlWidth h.htmlHeight]
  | some e =>
    cases hu : u.failure? with
    | none => rw [hf.mpr hu] at hs; cases hs
    | some e' =>
      unfold render
      rw [hs, hu]; rfl

end Rearranged

end Segment

/-! ## Transformations -/

theorem toOption_bind_congr {ε α β : Type} {x y : Except ε α} {f g : α → Except ε β}
    (h : x.toOption = y.toOption) (hf : ∀ a, (f a).toOption = (g a).toOption) :
    (x >>= f).toOption = (y >>= g).toOption := by
  cases x with
  | error e =>
    cases y with
    | error e' => rfl
    | ok b => cases h
  | ok a =>
    cases y with
    | error e => cases h
    | ok b => cases h; exact hf a

namespace Transformation

mutual
inductive Rearranged : Transformation → Transformation → Prop
  | mk {ts us s u} : RearrangedChain ts us → s.Rearranged u → Rearranged ⟨ts, s⟩ ⟨us, u⟩
inductive RearrangedChain : List Transformation → List Transformation → Prop
  | nil : RearrangedChain [] []
  | cons {t u ts us} : Rearranged t u → RearrangedChain ts us → RearrangedChain (t :: ts) (u :: us)
end

mutual
theorem Rearranged.refl : ∀ t, Rearranged t t
  | ⟨ts, s⟩ => .mk (RearrangedChain.refl ts) (.refl s)
theorem RearrangedChain.refl : ∀ ts, RearrangedChain ts ts
  | [] => .nil
  | t :: ts => .cons (Rearranged.refl t) (RearrangedChain.refl ts)
end

section
variable (c : RenderContext)

mutual
/-- Which result there is, if any, does not depend on the order of parameters. -/
theorem Rearranged.renderIn_eq : ∀ {t u : Transformation}, Rearranged t u → (∀ s ∈ t.segments, s.DistinctKeys) →
    (t.renderIn c).toOption = (u.renderIn c).toOption
  | ⟨_, _⟩, ⟨_, _⟩, .mk hchain hs, hd => by
    rw [forall_segments_iff] at hd
    rw [renderIn, renderIn]
    apply toOption_bind_congr (hchain.pathsIn_eq hd.1)
    intro paths
    exact toOption_bind_congr (hs.render_eq hd.2 c) fun own => rfl
theorem RearrangedChain.pathsIn_eq : ∀ {ts us : List Transformation}, RearrangedChain ts us →
    (∀ s ∈ segmentsOfChain ts, s.DistinctKeys) → (pathsIn c ts).toOption = (pathsIn c us).toOption
  | _, _, .nil, _ => rfl
  | _, _, .cons h hs, hd => by
    rw [segmentsOfChain, List.forall_mem_append] at hd
    rw [pathsIn, pathsIn]
    apply toOption_bind_congr (h.renderIn_eq hd.1)
    intro rendered
    exact toOption_bind_congr (hs.pathsIn_eq hd.2) fun paths => rfl
end

end

end Transformation

/-! ## Changes -/

namespace Change

theorem distinctKeys_apply {s : Segment} (hd : s.DistinctKeys) (c : Change) : (c.apply s).DistinctKeys := by
  cases c with
  | parameter key value => exact hd.put key value
  | htmlWidth width => exact hd
  | htmlHeight height => exact hd

theorem rearranged_apply {s u : Segment} (h : s.Rearranged u) (hd : s.DistinctKeys) (c : Change) :
    (c.apply s).Rearranged (c.apply u) := by
  have hd' := h.distinctKeys hd
  obtain ⟨hget, hw, hh⟩ := (Segment.rearranged_iff hd hd').mp h
  apply (Segment.rearranged_iff (distinctKeys_apply hd c) (distinctKeys_apply hd' c)).mpr
  cases c with
  | parameter key value =>
    refine ⟨?_, hw, hh⟩
    intro k
    show (s.put key value).get? k = (u.put key value).get? k
    rw [Segment.get?_put, Segment.get?_put, hget]
  | htmlWidth width => exact ⟨hget, rfl, hh⟩
  | htmlHeight height => exact ⟨hget, hw, rfl⟩

theorem rearranged_swap {s : Segment} (hd : s.DistinctKeys) {c d : Change} (h : c.slot ≠ d.slot) :
    (d.apply (c.apply s)).Rearranged (c.apply (d.apply s)) := by
  apply (Segment.rearranged_iff (distinctKeys_apply (distinctKeys_apply hd c) d)
    (distinctKeys_apply (distinctKeys_apply hd d) c)).mpr
  cases c with
  | parameter key value =>
    cases d with
    | parameter key' value' =>
      refine ⟨?_, rfl, rfl⟩
      intro k
      have hne : key ≠ key' := fun he => h (congrArg Slot.parameter he)
      show ((s.put key value).put key' value').get? k = ((s.put key' value').put key value).get? k
      rw [Segment.get?_put, Segment.get?_put, Segment.get?_put, Segment.get?_put]
      by_cases hk : key = k
      · rw [if_pos hk, if_pos hk, if_neg (hk ▸ hne.symm)]
      · rw [if_neg hk, if_neg hk]
    | htmlWidth width => exact ⟨fun _ => rfl, rfl, rfl⟩
    | htmlHeight height => exact ⟨fun _ => rfl, rfl, rfl⟩
  | htmlWidth width =>
    cases d with
    | parameter key' value' => exact ⟨fun _ => rfl, rfl, rfl⟩
    | htmlWidth width' => exact absurd rfl h
    | htmlHeight height => exact ⟨fun _ => rfl, rfl, rfl⟩
  | htmlHeight height =>
    cases d with
    | parameter key' value' => exact ⟨fun _ => rfl, rfl, rfl⟩
    | htmlWidth width => exact ⟨fun _ => rfl, rfl, rfl⟩
    | htmlHeight height' => exact absurd rfl h

end Change

namespace Segment

def changeAll (s : Segment) (changes : List Change) : Segment := changes.foldl Change.apply s

theorem DistinctKeys.changeAll {s : Segment} (hd : s.DistinctKeys) (changes : List Change) :
    (s.changeAll changes).DistinctKeys := by
  induction changes generalizing s with
  | nil => exact hd
  | cons c changes ih => exact ih (c.distinctKeys_apply hd)

theorem Rearranged.changeAll {s u : Segment} (h : s.Rearranged u) (hd : s.DistinctKeys) : ∀ changes : List Change,
    (s.changeAll changes).Rearranged (u.changeAll changes) := by
  intro changes
  induction changes generalizing s u with
  | nil => exact h
  | cons c changes ih => exact ih (c.rearranged_apply h hd) (c.distinctKeys_apply hd)

theorem rearranged_changeAll {changes others : List Change} (hp : changes.Perm others) {s : Segment}
    (hd : s.DistinctKeys) (hn : (changes.map Change.slot).Nodup) :
    (s.changeAll changes).Rearranged (s.changeAll others) := by
  induction hp generalizing s with
  | nil => exact .refl s
  | cons c _ ih =>
    rw [List.map_cons, List.nodup_cons] at hn
    exact ih (c.distinctKeys_apply hd) hn.2
  | swap c d changes =>
    rw [List.map_cons, List.nodup_cons, List.map_cons, List.mem_cons, not_or] at hn
    exact (Change.rearranged_swap hd hn.1.1).changeAll (c.distinctKeys_apply (d.distinctKeys_apply hd)) changes
  | trans hp hq ih ih' => exact (ih hd hn).trans (ih' hd ((hp.map Change.slot).nodup_iff.mp hn))

end Segment

/-! ## Setters in any order -/

namespace Transformation

def applyAll (t : Transformation) (settings : List Setting) : Except Error Transformation :=
  settings.foldlM Setting.apply t

theorem applyAll_eq_ok_iff : ∀ {settings : List Setting} {t u : Transformation}, t.applyAll settings = .ok u ↔
    (∀ s ∈ settings, s.check = .ok ()) ∧
      u = { t with current := t.current.changeAll (settings.map Setting.change) }
  | [], ⟨_, _⟩, u => by
    show Except.ok _ = Except.ok u ↔ _
    simp [Segment.changeAll, eq_comm]
  | s :: settings, t, u => by
    have hcons : t.applyAll (s :: settings) = (s.apply t >>= fun v => v.applyAll settings) := List.foldlM_cons
    rw [hcons, Setting.apply_eq, List.forall_mem_cons]
    cases hs : s.check with
    | error e => simp [Except.map, bind, Except.bind]
    | ok _ =>
      show applyAll _ settings = .ok u ↔ _
      rw [applyAll_eq_ok_iff, and_iff_right rfl]; rfl

theorem Rearranged.of_current (ts : List Transformation) {s u : Segment} (h : s.Rearranged u) :
    Rearranged ⟨ts, s⟩ ⟨ts, u⟩ := .mk (.refl ts) h

/-- Two transformations that differ in the order of parameters only, segment by segment, render to the same result
or both fail. Setters for different slots may be called in any order. -/
theorem render_canonical {t : Transformation} (hd : ∀ s ∈ t.segments, s.DistinctKeys) (d : Defaults) :
    (∀ u, t.Rearranged u → (t.render d).toOption = (u.render d).toOption) ∧
    ∀ settings others : List Setting, settings.Perm others → (settings.map (·.change.slot)).Nodup →
      (t.applyAll settings >>= render d).toOption = (t.applyAll others >>= render d).toOption := by
  refine ⟨fun u h => h.renderIn_eq d.context hd, ?_⟩
  intro settings others hp hn
  have hcurrent := (forall_segments_iff.mp hd).2
  have hslots : ((settings.map Setting.change).map Change.slot).Nodup := by
    rw [List.map_map]
    exact hn
  by_cases hc : ∀ s ∈ settings, s.check = .ok ()
  · have hc' : ∀ s ∈ others, s.check = .ok () := fun s hs => hc s (hp.mem_iff.mpr hs)
    rw [applyAll_eq_ok_iff.mpr ⟨hc, rfl⟩, applyAll_eq_ok_iff.mpr ⟨hc', rfl⟩]
    apply (Rearranged.of_current t.chained
      (Segment.rearranged_changeAll (hp.map Setting.change) hcurrent hslots)).renderIn_eq d.context
    exact forall_segments_iff.mpr ⟨(forall_segments_iff.mp hd).1, hcurrent.changeAll _⟩
  · have hc' : ¬∀ s ∈ others, s.check = .ok () := fun h => hc fun s hs => h s (hp.mem_iff.mp hs)
    have herror : ∀ {l : List Setting}, (¬∀ s ∈ l, s.check = .ok ()) →
        (t.applyAll l >>= render d).toOption = none := by
      intro l hl
      cases hu : t.applyAll l with
      | error e => rfl
      | ok u => exact absurd (applyAll_eq_ok_iff.mp hu).1 hl
    rw [herror hc, herror hc']

def cropWidth : Transformation := ofChain [ofParameters [("crop", .scalar "fill"), ("width", .scalar "50")]]

def widthCrop : Transformation := ofChain [ofParameters [("width", .scalar "50"), ("crop", .scalar "fill")]]

theorem render_canonical_cropWidth : (∀ s ∈ cropWidth.segments, s.DistinctKeys) ∧ cropWidth.Rearranged widthCrop ∧
    (cropWidth.render {}).toOption = (widthCrop.render {}).toOption ∧
    ([.text .angle "90", .htmlWidth "50"].map fun s : Setting => s.change.slot).Nodup ∧
    (cropWidth.applyAll [.text .angle "90", .htmlWidth "50"] >>= render {}).toOption =
      (cropWidth.applyAll [.htmlWidth "50", .text .angle "90"] >>= render {}).toOption := by
  have hd : ∀ s ∈ cropWidth.segments, s.DistinctKeys := (Built.ofChain fun t ht => by
    rw [List.mem_singleton.mp ht]
    exact built_ofParameters _).distinctKeys
  have hr : cropWidth.Rearranged widthCrop :=
    .mk (.cons (.mk .nil ⟨.swap _ _ _, rfl, rfl⟩) .nil) (.refl _)
  have hn : ([.text .angle "90", .htmlWidth "50"].map fun s : Setting => s.change.slot).Nodup := by decide
  exact ⟨hd, hr, (render_canonical hd {}).1 widthCrop hr, hn,
    (render_canonical hd {}).2 _ _ (.swap _ _ _) hn⟩

end Transformation

end DeliveryPath
