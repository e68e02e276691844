import DeliveryPath.Proofs.Documents
import DeliveryPath.Proofs.LoneParameter

/-!
# Keyframe intervals

An interval is checked where it comes in: a number before its places are cut off, a text and a document's scalar as
they are written, a document's array not at all. So what a path shows is above zero unless an accepted number is so
small that its two places are zero, or the items of an array spell a number (`Transformation.keyframe_intervals`).
-/

namespace DeliveryPath

/-! ## Checks -/

theorem checkInterval_eq_ok_iff {x : Binary64} : checkInterval x = .ok () ↔ x.Above 0 := by
  rw [Binary64.above_zero_iff, checkInterval]
  by_cases h : x.isPositive = true <;> simp [h]

theorem checkIntervalText_eq_ok_iff {text : String} :
    checkIntervalText text = .ok () ↔ ∀ n, readNumber? text = some n → n.Above 0 := by
  unfold checkIntervalText
  cases readNumber? text with
  | none => simp
  | some n => simp [checkInterval_eq_ok_iff]

theorem checkIntervalText_twoPlaces {x : Binary64} : checkIntervalText x.twoPlaces = .ok () ↔ x.Above (1 / 200) := by
  obtain ⟨y, hread, hpos⟩ := exists_readNumber?_twoPlaces x
  rw [checkIntervalText_eq_ok_iff, hread, ← hpos, ← Binary64.above_zero_iff]
  simp

theorem checkIntervalText_repr {n : Int} : checkIntervalText (Int.repr n) = checkInterval (binaryOfInt n) := by
  rw [checkIntervalText, readNumber?_repr]

/-! ## What a segment shows -/

namespace Segment

/-- Where the segment shows an interval and it reads as a number, the number is above zero. -/
def ShowsPositiveInterval (s : Segment) : Prop :=
  ∀ c text, .entry "ki" text ∈ s.components c → ∀ n, readNumber? text = some n → n.Above 0

theorem showsPositiveInterval_of_get? {s : Segment} {v : Value} {text : String}
    (hv : s.get? Parameter.keyframeInterval.name = some v) (hr : v.render = .ok text) :
    s.ShowsPositiveInterval ↔ ∀ n, readNumber? text = some n → n.Above 0 := by
  have hentry : ∀ c own, .entry "ki" own ∈ s.components c ↔ s.Shows .keyframeInterval own :=
    fun c own => entry_mem_components_iff (by decide)
  have hempty : readNumber? "" = none := by decide
  constructor
  · intro h n hn
    have hne : text ≠ "" := by
      rintro rfl
      rw [hempty] at hn
      cases hn
    exact h {} text ((hentry {} text).mpr ⟨v, hv, hr, hne⟩) n hn
  · intro h c own hm n hn
    obtain ⟨w, hw, hown, -⟩ := (hentry c own).mp hm
    rw [hv] at hw
    rw [← Option.some.inj hw, hr] at hown
    exact h n (by rw [Except.ok.inj hown]; exact hn)

theorem showsPositiveInterval_of_get?_eq_none {s : Segment} (hv : s.get? Parameter.keyframeInterval.name = none) :
    s.ShowsPositiveInterval := by
  intro c text hm
  obtain ⟨v, hget, -⟩ := (entry_mem_components_iff (p := .keyframeInterval) (by decide)).mp hm
  rw [hv] at hget
  cases hget

theorem components_interval {v : Value} {text : String} (hr : v.render = .ok text) (hne : text ≠ "") :
    ({ parameters := [(Parameter.keyframeInterval.name, v)] } : Segment).components {} = [.entry "ki" text] :=
  components_holding_copied (p := .keyframeInterval) (by decide) hr hne

end Segment

namespace Transformation

/-- The path of a transformation that holds nothing but an interval. -/
theorem generate_interval {v : Value} {text : String} (hr : v.render = .ok text) (hne : text ≠ "") :
    (empty.add Parameter.keyframeInterval.name v).generate = .ok ("ki_" ++ text) :=
  generate_holding hr (by decide) (Segment.components_interval hr hne)

/-! ## Setting an interval -/

theorem get?_set (t : Transformation) (p : Parameter) (text : String) :
    (t.set p text).current.get? p.name = some (.scalar text) := Segment.get?_put_self ..

theorem setKeyframeInterval_eq_ok_iff {t u : Transformation} {x : Binary64} : t.setKeyframeInterval x = .ok u ↔
    x.Above 0 ∧ u = t.set .keyframeInterval x.twoPlaces := by
  rw [← checkInterval_eq_ok_iff, setKeyframeInterval]
  cases checkInterval x with
  | error e => simp [bind, Except.bind]
  | ok _ => simp [bind, Except.bind, pure, Except.pure, eq_comm]

theorem setKeyframeIntervalText_eq_ok_iff {t u : Transformation} {text : String} :
    t.setKeyframeIntervalText text = .ok u ↔
      (∀ n, readNumber? text = some n → n.Above 0) ∧ u = t.set .keyframeInterval text := by
  rw [← checkIntervalText_eq_ok_iff, setKeyframeIntervalText]
  cases checkIntervalText text with
  | error e => simp [bind, Except.bind]
  | ok _ => simp [bind, Except.bind, pure, Except.pure, eq_comm]

end Transformation

/-! ## Documents -/

/-- Of the values an interval can have in a document, only a text is checked. -/
theorem checkParameter_interval (v : Value) : checkParameter Parameter.keyframeInterval.name v =
    match v with
    | .scalar text => checkIntervalText text
    | _ => .ok () := by
  have hname : Parameter.keyframeInterval.name.toList.head? ≠ some '$' := by decide
  have hoffset : Parameter.keyframeInterval.name ≠ Parameter.offset.name := by decide
  unfold checkParameter
  rw [if_neg hname]
  cases v with
  | scalar text => exact if_pos rfl
  | list items => exact if_neg hoffset
  | _ => rfl

theorem exists_of_mem_parametersOfJson {fields : List (String × Json)} {parameters : List (String × Value)}
    (h : parametersOfJson fields = .ok parameters) {key : String} {v : Value} (hv : (key, v) ∈ parameters) :
    ∃ json, Json.PassesChecks key json ∧ Json.Converts key json v := by
  rw [parametersOfJson_eq] at h
  obtain ⟨⟨k, json⟩, -, hentry⟩ := exists_of_mem_mapM h hv
  obtain ⟨haccepted, rfl, hconverts⟩ := parameterOfJson_eq_ok_iff.mp hentry
  exact ⟨json, haccepted.2, hconverts⟩

namespace Transformation

theorem mem_of_get?_ofParameters {parameters : List (String × Value)} {key : String} {v : Value}
    (h : (ofParameters parameters).current.get? key = some v) : (key, v) ∈ parameters := by
  rw [ofParameters_eq] at h
  have hlast : valueAt? key (upsertAll [] parameters) = some v := h
  rw [valueAt?_upsertAll, valueAt?, Option.or_none, Option.map_eq_some_iff] at hlast
  obtain ⟨⟨k, w⟩, hfound, rfl⟩ := hlast
  rw [List.findRev?_eq_find?_reverse] at hfound
  have hkey : k = key := by simpa using List.find?_some hfound
  rw [← hkey]
  exact List.mem_reverse.mp (List.mem_of_find?_eq_some hfound)

/-- A segment that an object describes. -/
def IsDescribed (s : Segment) : Prop :=
  ∃ fields parameters, parametersOfJson fields = .ok parameters ∧ s = (ofParameters parameters).current

theorem isDescribed_of_ofJson {json : Json} {t : Transformation} (h : ofJson json = .ok t) :
    ∀ s ∈ t.segments, IsDescribed s := by
  induction json using Json.document_induction generalizing t with
  | object fields =>
    intro s hs
    rw [ofJson, map_ok_iff] at h
    obtain ⟨parameters, hp, rfl⟩ := h
    rw [segments_eq, ofParameters_eq] at hs
    rw [List.mem_singleton.mp hs, ← ofParameters_eq]
    exact ⟨_, parameters, hp, rfl⟩
  | array items ih =>
    intro s hs
    rw [ofJson_array, map_ok_iff] at h
    obtain ⟨ts, hts, rfl⟩ := h
    rw [segments_ofChain, List.mem_append, List.mem_singleton] at hs
    rcases hs with hs | rfl
    · obtain ⟨t, ht, hs⟩ := mem_segmentsOfChain.mp hs
      obtain ⟨item, hitem, hok⟩ := exists_of_mem_mapM hts ht
      exact ih item hitem hok s hs
    · exact ⟨[], [], rfl, rfl⟩
  | other json hobject harray =>
    rw [ofJson_of_other hobject harray] at h
    cases h

theorem IsDescribed.showsPositiveInterval_iff {s : Segment} (h : IsDescribed s) : s.ShowsPositiveInterval ↔
    ∀ items n, s.get? Parameter.keyframeInterval.name = some (.list items) →
      readNumber? (".".intercalate items) = some n → n.Above 0 := by
  obtain ⟨fields, parameters, hp, rfl⟩ := h
  cases hv : (ofParameters parameters).current.get? Parameter.keyframeInterval.name with
  | none =>
    refine iff_of_true (Segment.showsPositiveInterval_of_get?_eq_none hv) ?_
    intro items n hitems
    cases hitems
  | some v =>
    obtain ⟨json, hpasses, hconverts⟩ := exists_of_mem_parametersOfJson hp (mem_of_get?_ofParameters hv)
    cases hconverts with
    | scalar htext =>
      have hpositive := fun n => hpasses.interval _ n rfl htext
      refine iff_of_true ((Segment.showsPositiveInterval_of_get? hv rfl).mpr hpositive) ?_
      intro items n hitems
      cases hitems
    | list _ =>
      rw [Segment.showsPositiveInterval_of_get? hv rfl]
      constructor
      · rintro hn items' n heq
        cases heq
        exact hn n
      · exact fun hn n => hn _ n rfl
    | codec hkey _ _ _ => exact absurd hkey (by decide)

/-- An object is accepted if each of its fields is, in an object of its own. -/
theorem exists_ofJson_iff_fields (fields : List (String × Json)) : (∃ t, ofJson (.object fields) = .ok t) ↔
    ∀ field ∈ Json.members fields, ∃ t, ofJson (.object [field]) = .ok t := by
  have hsingle : ∀ field, Json.members [field] = [field] := fun _ => rfl
  simp [exists_ofJson_iff, Json.isDocument_object_iff, Json.entries, hsingle]

theorem exists_ofJson_interval_iff {json : Json} {text : String} (h : json.HasText text) :
    (∃ t, ofJson (.object [(Parameter.keyframeInterval.name, json)]) = .ok t) ↔ checkIntervalText text = .ok () := by
  have hscalar := Json.isScalar_iff.mpr ⟨text, h⟩
  have hnull : json ≠ .null := by
    rintro rfl
    cases h
  have hentries : Json.entries [(Parameter.keyframeInterval.name, json)] = [(Parameter.keyframeInterval.name, json)] :=
    List.filter_cons_of_pos (by simpa [Json.sort_eq_null_iff] using hnull)
  rw [exists_ofJson_iff, Json.isDocument_object_iff, hentries, List.forall_mem_singleton, Json.IsAccepted,
    and_iff_right (.scalar hscalar), ← checkParameter_eq_ok_iff (.scalar h), checkParameter_interval]

/-- The items of an array are not checked. -/
theorem ofJson_interval_array {items : List Json} {texts : List String}
    (h : items.mapM (itemOfJson Parameter.keyframeInterval.name) = .ok texts) :
    ofJson (.object [(Parameter.keyframeInterval.name, .array items)]) =
      .ok (empty.setList .keyframeInterval texts) := by
  have hv : Value.ofJson Parameter.keyframeInterval.name (.array items) = .ok (some (.list texts)) := by
    rw [Value.ofJson, h]
    rfl
  have hentries : Json.entries [(Parameter.keyframeInterval.name, .array items)] =
      [(Parameter.keyframeInterval.name, .array items)] := rfl
  have hentry : parameterOfJson (Parameter.keyframeInterval.name, .array items) =
      .ok (Parameter.keyframeInterval.name, .list texts) := by
    simp [parameterOfJson, hv, checkParameter_interval, bind, Except.bind, pure, Except.pure]
  rw [ofJson_object, hentries, List.mapM_cons, List.mapM_nil, hentry]
  rfl

/-! ## Intervals above zero -/

/-- A number is accepted if it is above zero, and shown as such if it is above half a hundredth. A text that is
accepted is shown as such or is no number. A document's segments show what is above zero or no number, unless the items
of an array spell one. Of a document's numbers, whole ones are accepted as they are otherwise, and the others if they
are above half a hundredth. -/
theorem keyframe_intervals (t : Transformation) (x : Binary64) (text : String) (n : Int) (json : Json)
    (fields : List (String × Json)) :
    ((∃ u, t.setKeyframeInterval x = .ok u) ↔ x.Above 0) ∧
    (∀ u, t.setKeyframeInterval x = .ok u → (u.current.ShowsPositiveInterval ↔ x.Above (1 / 200))) ∧
    (∀ u, t.setKeyframeIntervalText text = .ok u → u.current.ShowsPositiveInterval) ∧
    (∀ u, ofJson json = .ok u → ∀ s ∈ u.segments, (s.ShowsPositiveInterval ↔ ∀ items n,
      s.get? Parameter.keyframeInterval.name = some (.list items) →
        readNumber? (".".intercalate items) = some n → n.Above 0)) ∧
    ((∃ u, ofJson (.object fields) = .ok u) ↔
      ∀ field ∈ Json.members fields, ∃ u, ofJson (.object [field]) = .ok u) ∧
    ((∃ u, ofJson (.object [(Parameter.keyframeInterval.name, .integer n)]) = .ok u) ↔
      ∃ u, t.setKeyframeInterval (binaryOfInt n) = .ok u) ∧
    ((∃ u, ofJson (.object [(Parameter.keyframeInterval.name, .real x)]) = .ok u) ↔ x.Above (1 / 200)) := by
  have haccepts : ∀ y : Binary64, (∃ u, t.setKeyframeInterval y = .ok u) ↔ y.Above 0 := by
    intro y
    simp only [setKeyframeInterval_eq_ok_iff]
    constructor
    · rintro ⟨-, hy, -⟩
      exact hy
    · exact fun hy => ⟨_, hy, rfl⟩
  refine ⟨haccepts x, ?_, ?_, ?_, exists_ofJson_iff_fields fields, ?_, ?_⟩
  · intro u hu
    obtain ⟨-, rfl⟩ := setKeyframeInterval_eq_ok_iff.mp hu
    rw [Segment.showsPositiveInterval_of_get? (get?_set t .keyframeInterval x.twoPlaces) rfl,
      ← checkIntervalText_eq_ok_iff, checkIntervalText_twoPlaces]
  · intro u hu
    obtain ⟨htext, rfl⟩ := setKeyframeIntervalText_eq_ok_iff.mp hu
    exact (Segment.showsPositiveInterval_of_get? (get?_set t .keyframeInterval text) rfl).mpr htext
  · intro u hu s hs
    exact (isDescribed_of_ofJson hu s hs).showsPositiveInterval_iff
  · rw [exists_ofJson_interval_iff (.integer n), checkIntervalText_repr, checkInterval_eq_ok_iff, haccepts]
  · rw [exists_ofJson_interval_iff (.real x), checkIntervalText_twoPlaces]

def halfSecond : Binary64 := .finite false 4503599627370496 (-53)

theorem keyframe_intervals_halfSecond : Binary64.read? "0.5" = some halfSecond ∧
    (∃ u, empty.setKeyframeInterval halfSecond = .ok u ∧ u.current.ShowsPositiveInterval ∧ u.generate = .ok "ki_0.5") ∧
    (∃ u, empty.setKeyframeIntervalText "2s" = .ok u ∧ u.current.ShowsPositiveInterval) ∧
    ∃ t, ofJson (.object [(Parameter.keyframeInterval.name, .real halfSecond)]) = .ok t ∧
      ∀ s ∈ t.segments, s.ShowsPositiveInterval ↔ ∀ items n,
        s.get? Parameter.keyframeInterval.name = some (.list items) →
          readNumber? (".".intercalate items) = some n → n.Above 0 := by
  obtain ⟨-, hnumber, htext, hdocument, -, -, hreal⟩ := keyframe_intervals empty halfSecond "2s" 0
    (.object [(Parameter.keyframeInterval.name, .real halfSecond)]) []
  have habove : halfSecond.Above (1 / 200) := by norm_num [halfSecond, Binary64.Above]
  have hpositive : halfSecond.Above 0 := by norm_num [halfSecond, Binary64.Above]
  have hset : empty.setKeyframeInterval halfSecond = .ok (empty.set .keyframeInterval "0.5") := by
    have hplaces : halfSecond.twoPlaces = "0.5" := by decide
    rw [setKeyframeInterval_eq_ok_iff, hplaces]
    exact ⟨hpositive, rfl⟩
  have hfree : empty.setKeyframeIntervalText "2s" = .ok (empty.set .keyframeInterval "2s") := by
    have hread : readNumber? "2s" = none := by decide
    rw [setKeyframeIntervalText_eq_ok_iff, hread]
    refine ⟨fun _ hn => ?_, rfl⟩
    cases hn
  have hpath : (empty.set .keyframeInterval "0.5").generate = .ok "ki_0.5" :=
    generate_interval (v := .scalar "0.5") rfl (by decide)
  have hparsed : Binary64.read? "0.5" = some halfSecond := by decide
  obtain ⟨t, ht⟩ := hreal.mpr habove
  exact ⟨hparsed, ⟨_, hset, (hnumber _ hset).mpr habove, hpath⟩, ⟨_, hfree, htext _ hfree⟩, t, ht, hdocument t ht⟩

/-- The double nearest to a thousandth. -/
def thousandth : Binary64 := .finite false 4611686018427388 (-62)

/-- A thousandth is accepted as a number and shown as zero, while the same number in a document is not accepted. An
array with a negative number is accepted there. -/
theorem keyframe_interval_not_positive : Binary64.read? "0.001" = some thousandth ∧
    (∃ u n, empty.setKeyframeInterval thousandth = .ok u ∧ u.generate = .ok "ki_0.0" ∧
      .entry "ki" "0.0" ∈ u.current.components {} ∧ readNumber? "0.0" = some n ∧ ¬n.Above 0) ∧
    (¬∃ t, ofJson (.object [(Parameter.keyframeInterval.name, .real thousandth)]) = .ok t) ∧
    ∃ t n, ofJson (.object [(Parameter.keyframeInterval.name, .array [.integer (-5)])]) = .ok t ∧
      t.generate = .ok "ki_-5" ∧ .entry "ki" "-5" ∈ t.current.components {} ∧ readNumber? "-5" = some n ∧
      ¬n.Above 0 := by
  have hzero : ¬(Binary64.finite false 0 (-1074)).Above 0 := by simp [Binary64.Above]
  have hnegative : ¬(binaryOfInt (-5)).Above 0 := by
    rw [Binary64.above_zero_iff, isPositive_binaryOfInt]
    decide
  have hpositive : thousandth.Above 0 := by
    rw [Binary64.above_zero_iff]
    rfl
  have htext : thousandth.twoPlaces = "0.0" := by decide
  have hread : readNumber? "0.0" = some (.finite false 0 (-1074)) := by decide
  have hset : empty.setKeyframeInterval thousandth = .ok (empty.set .keyframeInterval "0.0") :=
    setKeyframeInterval_eq_ok_iff.mpr ⟨hpositive, by rw [htext]⟩
  have hitems : [Json.integer (-5)].mapM (itemOfJson Parameter.keyframeInterval.name) = .ok ["-5"] := by
    decide
  have hwritten : Int.repr (-5) = "-5" := by decide
  have hfive : readNumber? "-5" = some (binaryOfInt (-5)) := by rw [← hwritten, readNumber?_repr]
  have hrejected : checkIntervalText thousandth.twoPlaces ≠ .ok () := by
    rw [htext, ne_eq, checkIntervalText_eq_ok_iff]
    exact fun h => hzero (h _ hread)
  have hshown := generate_interval (v := .scalar "0.0") rfl (by decide)
  have hlisted := generate_interval (v := .list ["-5"]) rfl (by decide)
  have hentry : ∀ {v : Value} {text : String}, v.render = .ok text → text ≠ "" →
      .entry "ki" text ∈ (empty.add Parameter.keyframeInterval.name v).current.components {} := by
    intro v text hr hne
    exact (Segment.components_interval hr hne).symm ▸ List.mem_singleton_self _
  have hdouble : Binary64.read? "0.001" = some thousandth := by decide
  refine ⟨hdouble, ⟨_, _, hset, hshown, hentry (v := .scalar "0.0") rfl (by decide), hread, hzero⟩, ?_, ?_⟩
  · rw [exists_ofJson_interval_iff (.real thousandth)]
    exact hrejected
  · exact ⟨_, _, ofJson_interval_array hitems, hlisted, hentry (v := .list ["-5"]) rfl (by decide), hfive, hnegative⟩

end Transformation

end DeliveryPath
