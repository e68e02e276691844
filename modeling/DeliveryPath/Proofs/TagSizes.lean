import Mathlib.Data.List.TakeWhile
import DeliveryPath.Proofs.CombinedParameters
import DeliveryPath.Proofs.CompactForm
import DeliveryPath.Proofs.Numerals

/-!
# Sizes of the image tag

A size is known beforehand if nothing in it depends on the asset, and if it is no number below one; a width has to be a
number besides. The test for it comes to just this (`isStaticWidth_iff`, `isStaticHeight_iff`). The tag announces the
size of the result, or the one set for it, unless the segment asks for a size that is not known, or hides it
(`tag_sizes`).
-/

namespace DeliveryPath

/-! ## Numbers of at least one -/

namespace Binary64

def AtLeast (q : ℚ) : Binary64 → Prop
  | .nan => False
  | .infinite negative => negative = false
  | .finite negative mantissa exponent => q ≤ (if negative then -1 else 1) * mantissa * 2 ^ exponent

theorem atLeast_one_iff {x : Binary64} : x.AtLeast 1 ↔ x.atLeastOne = true := by
  cases x with
  | nan => simp [AtLeast, atLeastOne]
  | infinite negative => simp [AtLeast, atLeastOne]
  | finite negative mantissa exponent =>
    have hden : (0 : ℚ) < pow2 (-exponent).toNat := Nat.cast_pos.mpr (pow2_pos _)
    cases negative with
    | true =>
      have hpos : (0 : ℚ) ≤ mantissa * 2 ^ exponent := by positivity
      simp only [AtLeast, atLeastOne, if_true, neg_mul, Bool.not_true, Bool.false_and, Bool.false_eq_true,
        iff_false, not_le]
      linarith
    | false =>
      simp only [AtLeast, atLeastOne, Bool.false_eq_true, if_false, one_mul, Bool.not_false, Bool.true_and,
        decide_eq_true_eq, two_zpow_eq]
      rw [← mul_div_assoc, le_div_iff₀ hden, one_mul]
      exact_mod_cast Iff.rfl

end Binary64

/-! ## Sizes known beforehand -/

/-- The text has several words, joined by underscores, and one of them is a code. -/
def HasCode (text : String) : Prop :=
  ∃ words : List String, 2 ≤ words.length ∧ (∀ word ∈ words, '_' ∉ word.toList) ∧ text = "_".intercalate words ∧
    ∃ word ∈ words, isShortCode word = true

/-- The size depends neither on what is known of the asset at delivery only, nor on a percentage of it. -/
structure IsAbsolute (size : String) : Prop where
  no_reference : '$' ∉ size.toList
  no_code : ¬HasCode (normalize size)
  no_percent : ¬∃ front blanks, size.toList = front ++ '%' :: blanks ∧ ∀ b ∈ blanks, isBlank b = true

structure IsKnownWidth (width : String) : Prop extends IsAbsolute width where
  no_auto (piece : List Char) : piece <:+: width.toList → piece.map Char.toLower ≠ "auto".toList
  number : ∃ n, readNumber? width = some n ∧ n.AtLeast 1

structure IsKnownHeight (height : String) : Prop extends IsAbsolute height where
  number (n : Binary64) : readNumber? height = some n → n.AtLeast 1

theorem not_mem_of_mem_splitOn {m : Char} : ∀ {cs word : List Char}, word ∈ cs.splitOn m → m ∉ word
  | [], word, h => by
    rw [List.splitOn_nil, List.mem_singleton] at h
    rw [h]
    exact List.not_mem_nil
  | c :: cs, word, h => by
    rw [List.splitOn_cons_eq_if_modifyHead] at h
    by_cases hc : c = m
    · rw [if_pos (beq_iff_eq.mpr hc)] at h
      rcases List.mem_cons.mp h with rfl | h
      · exact List.not_mem_nil
      · exact not_mem_of_mem_splitOn h
    · obtain ⟨first, rest, hfirst⟩ := List.exists_cons_of_ne_nil (List.splitOn_ne_nil m cs)
      have hmem : ∀ {w}, w ∈ first :: rest → m ∉ w := fun hw => not_mem_of_mem_splitOn (hfirst ▸ hw)
      rw [if_neg (fun heq => hc (beq_iff_eq.mp heq)), hfirst, List.modifyHead_cons] at h
      rcases List.mem_cons.mp h with rfl | h
      · exact List.not_mem_cons_of_ne_of_not_mem (Ne.symm hc) (hmem (List.mem_cons_self ..))
      · exact hmem (List.mem_cons_of_mem _ h)

theorem hasCode_iff {text : String} : HasCode text ↔ 1 < (text.toList.splitOn '_').length ∧
    ∃ word ∈ text.toList.splitOn '_', isShortCode (String.ofList word) = true := by
  constructor
  · rintro ⟨words, hlength, hfree, rfl, word, hword, hcode⟩
    have hne : words.map String.toList ≠ [] := by
      intro hnil
      rw [List.map_eq_nil_iff.mp hnil] at hlength
      exact absurd hlength (by decide)
    -- no word holds an underscore, so splitting undoes the joining
    have hsplit : ("_".intercalate words).toList.splitOn '_' = words.map String.toList := by
      rw [String.toList_intercalate]
      refine List.splitOn_intercalate '_' (fun w hw => ?_) hne
      obtain ⟨own, hown, rfl⟩ := List.mem_map.mp hw
      exact hfree own hown
    rw [hsplit, List.length_map]
    exact ⟨hlength, word.toList, List.mem_map_of_mem hword, by rwa [String.ofList_toList]⟩
  · rintro ⟨hlength, word, hword, hcode⟩
    refine ⟨(text.toList.splitOn '_').map String.ofList, ?_, ?_, ?_, _, List.mem_map_of_mem hword, hcode⟩
    · rwa [List.length_map]
    · intro own hown
      obtain ⟨cs, hcs, rfl⟩ := List.mem_map.mp hown
      rw [String.toList_ofList]
      exact not_mem_of_mem_splitOn hcs
    · have hback : ((text.toList.splitOn '_').map String.ofList).map String.toList = text.toList.splitOn '_' := by
        rw [List.map_map]
        exact List.map_id'' (fun _ => String.toList_ofList) _
      rw [← String.toList_inj, String.toList_intercalate, hback]
      exact (List.intercalate_splitOn '_').symm

theorem containsVariable_iff {value : String} :
    containsVariable value = true ↔ '$' ∈ value.toList ∨ HasCode (normalize value) := by
  rw [hasCode_iff, toList_normalize]
  simp [containsVariable]

/-- The last character of a text, the blanks at its end aside. -/
theorem getLast?_trimEnd {cs : List Char} {c : Char} : (trimEnd cs).getLast? = some c ↔
    isBlank c = false ∧ ∃ front blanks, cs = front ++ c :: blanks ∧ ∀ b ∈ blanks, isBlank b = true := by
  have hfind : (cs.reverse.dropWhile isBlank).head? = cs.reverse.find? (!isBlank ·) := by
    simp [List.find?_eq_head?_dropWhile_not]
  rw [trimEnd, List.getLast?_reverse, hfind, List.find?_eq_some_iff_append, Bool.not_eq_true']
  refine and_congr_right fun _ => ⟨?_, ?_⟩
  · rintro ⟨blanks, front, hcs, hblanks⟩
    refine ⟨front.reverse, blanks.reverse, ?_, fun b hb => ?_⟩
    · rw [← List.reverse_reverse cs, hcs]
      simp
    · simpa using hblanks b (List.mem_reverse.mp hb)
  · rintro ⟨front, blanks, rfl, hblanks⟩
    refine ⟨blanks.reverse, front.reverse, by simp, fun b hb => ?_⟩
    simpa using hblanks b (List.mem_reverse.mp hb)

theorem endsInPercent_iff {size : String} : endsInPercent size = true ↔
    ∃ front blanks, size.toList = front ++ '%' :: blanks ∧ ∀ b ∈ blanks, isBlank b = true := by
  have hpercent : isBlank '%' = false := by decide
  rw [endsInPercent, decide_eq_true_eq, getLast?_trimEnd, and_iff_right hpercent]

theorem isRelativeSize_eq_false_iff {size : String} : isRelativeSize size = false ↔ IsAbsolute size := by
  rw [isRelativeSize, Bool.or_eq_false_iff, ← Bool.not_eq_true, ← Bool.not_eq_true, containsVariable_iff,
    endsInPercent_iff, not_or]
  constructor
  · rintro ⟨⟨hreference, hcode⟩, hpercent⟩
    exact ⟨hreference, hcode, hpercent⟩
  · rintro ⟨hreference, hcode, hpercent⟩
    exact ⟨⟨hreference, hcode⟩, hpercent⟩

theorem mentionsAuto_eq_false_iff {size : String} : mentionsAuto size = false ↔
    ∀ piece, piece <:+: size.toList → piece.map Char.toLower ≠ "auto".toList := by
  rw [mentionsAuto, ← Bool.not_eq_true, isSome_cut?_iff]
  constructor
  · intro h piece hpiece heq
    exact h (heq ▸ hpiece.map Char.toLower)
  · rintro h ⟨front, rest, heq⟩
    obtain ⟨initial, after, hsize, hinitial, -⟩ := List.map_eq_append_iff.mp heq.symm
    obtain ⟨before, piece, rfl, -, hpiece⟩ := List.map_eq_append_iff.mp hinitial
    exact h piece ⟨before, after, hsize.symm⟩ hpiece

theorem isStaticWidth_iff {width : String} : isStaticWidth width = true ↔ IsKnownWidth width := by
  rw [isStaticWidth, Bool.and_eq_true, Bool.and_eq_true, Bool.not_eq_true', Bool.not_eq_true',
    isRelativeSize_eq_false_iff, mentionsAuto_eq_false_iff, Option.any_eq_true]
  simp only [← Binary64.atLeast_one_iff]
  constructor
  · rintro ⟨⟨habsolute, hauto⟩, hnumber⟩
    exact ⟨habsolute, hauto, hnumber⟩
  · rintro ⟨habsolute, hauto, hnumber⟩
    exact ⟨⟨habsolute, hauto⟩, hnumber⟩

theorem isStaticHeight_iff {height : String} : isStaticHeight height = true ↔ IsKnownHeight height := by
  rw [isStaticHeight, Bool.and_eq_true, Bool.not_eq_true', isRelativeSize_eq_false_iff, Option.all_eq_true]
  simp only [← Binary64.atLeast_one_iff]
  constructor
  · rintro ⟨habsolute, hnumber⟩
    exact ⟨habsolute, hnumber⟩
  · rintro ⟨habsolute, hnumber⟩
    exact ⟨habsolute, hnumber⟩

/-! ## The size that a segment asks for -/

namespace Segment

/-- A side of the combined size goes before the single parameter. An empty one counts as absent. -/
def HasWidth (s : Segment) (width : String) : Prop :=
  width ≠ "" ∧ ((∃ height, s.HasSides width height) ∨ (¬∃ w h, s.HasSides w h) ∧ s.Shows .width width)

def HasHeight (s : Segment) (height : String) : Prop :=
  height ≠ "" ∧ ((∃ width, s.HasSides width height) ∨ (¬∃ w h, s.HasSides w h) ∧ s.Shows .height height)

theorem combinedSize?_eq_none_iff {s : Segment} : s.combinedSize? = none ↔ ¬∃ w h, s.HasSides w h := by
  simp [Option.eq_none_iff_forall_ne_some, ← combinedSize?_eq_some_iff]

/-- A side of the combined size, if there is one, or else the single parameter. -/
theorem side_eq_some_iff {s : Segment} {p : Parameter} {side : String × String → String} {text : String} :
    s.combinedSize?.elim (s.text? p) (fun sides => given (some (side sides))) = some text ↔ text ≠ "" ∧
      ((∃ w h, s.HasSides w h ∧ side (w, h) = text) ∨ (¬∃ w h, s.HasSides w h) ∧ s.Shows p text) := by
  rw [← combinedSize?_eq_none_iff]
  simp only [← combinedSize?_eq_some_iff]
  cases s.combinedSize? with
  | none =>
    have hne : s.Shows p text → text ≠ "" := fun ⟨_, _, _, hne⟩ => hne
    simpa [text?_eq_some_iff] using hne
  | some sides =>
    obtain ⟨w, h⟩ := sides
    rw [Option.elim_some, given_eq_some_iff, Option.some.injEq, and_comm]
    simp

theorem width?_eq_some_iff {s : Segment} {width : String} : s.width? = some width ↔ s.HasWidth width := by
  have hside : s.width? = s.combinedSize?.elim (s.text? .width) fun sides => given (some sides.1) := by
    unfold width?
    cases s.combinedSize? <;> rfl
  rw [hside, side_eq_some_iff, HasWidth]
  simp

theorem height?_eq_some_iff {s : Segment} {height : String} : s.height? = some height ↔ s.HasHeight height := by
  have hside : s.height? = s.combinedSize?.elim (s.text? .height) fun sides => given (some sides.2) := by
    unfold height?
    cases s.combinedSize? <;> rfl
  rw [hside, side_eq_some_iff, HasHeight]
  simp

/-- Nothing in the segment makes the size of the result differ from the size that is asked for. -/
structure KeepsSize (c : RenderContext) (s : Segment) : Prop where
  no_overlay (v : Value) : s.get? Parameter.overlay.name = some v → v.isEmpty = true
  no_underlay (v : Value) : s.get? Parameter.underlay.name = some v → v.isEmpty = true
  no_angle (text : String) : ¬s.Shows .angle text
  not_fit : ¬s.Shows .crop "fit"
  not_limit : ¬s.Shows .crop "limit"
  not_responsive : s.scalar? Parameter.responsiveWidth.name ≠ some "true"
  not_by_default : c.responsive = true → s.scalar? Parameter.responsiveWidth.name = some "false"

theorem has_eq_false_iff {s : Segment} {p : Parameter} :
    s.has p = false ↔ ∀ v, s.get? p.name = some v → v.isEmpty = true := by
  simp [has, Option.any_eq_false]

/-- A text that spells no truth value leaves the choice to the defaults. -/
theorem isResponsive_eq_false_iff {c : RenderContext} {s : Segment} : s.isResponsive c = false ↔
    s.scalar? Parameter.responsiveWidth.name ≠ some "true" ∧
      (c.responsive = true → s.scalar? Parameter.responsiveWidth.name = some "false") := by
  unfold isResponsive
  cases s.scalar? Parameter.responsiveWidth.name with
  | none => simp
  | some text =>
    by_cases htrue : text = "true"
    · simp [readBool?, htrue]
    · by_cases hfalse : text = "false"
      · simp [readBool?, hfalse]
      · simp [readBool?, htrue, hfalse]

theorem hidesSize_eq_false_iff {c : RenderContext} {s : Segment} : s.hidesSize c = false ↔ s.KeepsSize c := by
  have hangle : (s.text? .angle).isSome = false ↔ ∀ text, ¬s.Shows .angle text := by
    simp [← text?_eq_some_iff, Option.eq_none_iff_forall_ne_some]
  have hcrop : ∀ crop : String, (s.text? .crop == some crop) = false ↔ ¬s.Shows .crop crop := by
    simp [← text?_eq_some_iff]
  unfold hidesSize
  simp only [Bool.or_eq_false_iff, has_eq_false_iff, hangle, hcrop, isResponsive_eq_false_iff]
  constructor
  · rintro ⟨⟨⟨⟨⟨hoverlay, hunderlay⟩, hangle⟩, hfit⟩, hlimit⟩, hown, hdefault⟩
    exact ⟨hoverlay, hunderlay, hangle, hfit, hlimit, hown, hdefault⟩
  · rintro ⟨hoverlay, hunderlay, hangle, hfit, hlimit, hown, hdefault⟩
    exact ⟨⟨⟨⟨⟨hoverlay, hunderlay⟩, hangle⟩, hfit⟩, hlimit⟩, hown, hdefault⟩

end Segment

/-! ## The size that is announced -/

/-- What the tag announces if `own` is set for it: `own`, or else the size that is asked for. If the size that is asked
for is not known, the tag announces nothing. -/
structure Announces (own : Option String) (Asked Known : String → Prop) (announced : Option String) : Prop where
  of_result (v : String) : own = none → (announced = some v ↔ Asked v ∧ Known v)
  of_tag (text : String) : own = some text → (∀ v, ¬Asked v) → announced = some text
  kept_iff (text v : String) : own = some text → Asked v → (announced = some text ↔ Known v)
  dropped_iff (text v : String) : own = some text → Asked v → (announced = none ↔ ¬Known v)

def announced? (own asked? : Option String) (known : String → Bool) : Option String :=
  match asked? with
  | some size => if known size then own.or (some size) else none
  | none => own

theorem announces_announced? {own asked? : Option String} {known : String → Bool} {Asked Known : String → Prop}
    (hasked : ∀ v, asked? = some v ↔ Asked v) (hknown : ∀ v, known v = true ↔ Known v) :
    Announces own Asked Known (announced? own asked? known) := by
  cases asked? with
  | none =>
    have hnone : ∀ v, ¬Asked v := fun v hv => Option.some_ne_none v ((hasked v).mpr hv).symm
    refine ⟨fun v hown => ?_, fun text hown _ => hown, fun text v _ hv => absurd hv (hnone v),
      fun text v _ hv => absurd hv (hnone v)⟩
    simp [announced?, hown, hnone]
  | some size =>
    have hsize : ∀ v, Asked v ↔ size = v := fun v => by rw [← hasked, Option.some.injEq]
    have hasks : Asked size := (hsize size).mpr rfl
    refine ⟨fun v hown => ?_, fun text _ hnone => absurd hasks (hnone size), fun text v hown hv => ?_,
      fun text v hown hv => ?_⟩
    · rw [hsize, hown, announced?, Option.none_or]
      by_cases hv : size = v
      · simp [hv, ← hknown]
      · simp [hv]
    · obtain rfl := (hsize v).mp hv
      simp [announced?, hown, ← hknown]
    · obtain rfl := (hsize v).mp hv
      simp [announced?, hown, ← hknown]

namespace Segment

variable (c : RenderContext) (s : Segment)

theorem htmlWidth?_eq :
    s.htmlWidth? c = announced? s.htmlWidth s.width? fun width => !s.hidesSize c && isStaticWidth width := by
  unfold htmlWidth? announced?
  cases s.width? with
  | none => rfl
  | some width => cases s.hidesSize c <;> cases hstatic : isStaticWidth width <;> simp [hstatic]

theorem htmlHeight?_eq :
    s.htmlHeight? c = announced? s.htmlHeight s.height? fun height => !s.hidesSize c && isStaticHeight height := by
  unfold htmlHeight? announced?
  cases s.height? with
  | none => rfl
  | some height => cases s.hidesSize c <;> cases hstatic : isStaticHeight height <;> simp [hstatic]

theorem announces_width : Announces s.htmlWidth s.HasWidth
    (fun width => s.KeepsSize c ∧ IsKnownWidth width) (s.htmlWidth? c) := by
  rw [htmlWidth?_eq]
  refine announces_announced? (fun _ => width?_eq_some_iff) fun width => ?_
  rw [Bool.and_eq_true, Bool.not_eq_true', hidesSize_eq_false_iff, isStaticWidth_iff]

theorem announces_height : Announces s.htmlHeight s.HasHeight
    (fun height => s.KeepsSize c ∧ IsKnownHeight height) (s.htmlHeight? c) := by
  rw [htmlHeight?_eq]
  refine announces_announced? (fun _ => height?_eq_some_iff) fun height => ?_
  rw [Bool.and_eq_true, Bool.not_eq_true', hidesSize_eq_false_iff, isStaticHeight_iff]

end Segment

namespace Transformation

/-- The tag announces the width and the height that the open segment asks for, or those set for it, unless the segment
asks for a size that it does not keep or that is not known. -/
theorem tag_sizes {t : Transformation} {d : Defaults} {r : Rendered} (h : t.render d = .ok r) :
    Announces t.current.htmlWidth t.current.HasWidth
      (fun width => t.current.KeepsSize d.context ∧ IsKnownWidth width) r.htmlWidth ∧
    Announces t.current.htmlHeight t.current.HasHeight
      (fun height => t.current.KeepsSize d.context ∧ IsKnownHeight height) r.htmlHeight := by
  obtain ⟨parts, own, -, hown, rfl⟩ := (renderIn_ok_iff d.context).mp h
  obtain ⟨-, follows, -, rfl⟩ := Segment.eq_of_render hown
  exact ⟨t.current.announces_width d.context, t.current.announces_height d.context⟩

/-- A height below one is not announced, not even the one that is set for the tag. -/
def thinImage : Transformation := (empty.set .size "300x0.5").setHtmlHeight "80"

theorem tag_sizes_thinImage : ∃ r, thinImage.render {} = .ok r ∧ thinImage.current.KeepsSize ({} : Defaults).context ∧
    thinImage.current.HasWidth "300" ∧ IsKnownWidth "300" ∧ r.htmlWidth = some "300" ∧
    thinImage.current.HasHeight "0.5" ∧ ¬IsKnownHeight "0.5" ∧ r.htmlHeight = none := by
  have hkeeps : thinImage.current.KeepsSize ({} : Defaults).context :=
    Segment.hidesSize_eq_false_iff.mp (by decide +kernel)
  have hwidth : thinImage.current.HasWidth "300" := Segment.width?_eq_some_iff.mp (by decide +kernel)
  have hheight : thinImage.current.HasHeight "0.5" := Segment.height?_eq_some_iff.mp (by decide +kernel)
  have hwide : IsKnownWidth "300" := isStaticWidth_iff.mp (by decide +kernel)
  have hthin : ¬IsKnownHeight "0.5" := fun h => absurd (isStaticHeight_iff.mpr h) (by decide +kernel)
  have hrenders : (thinImage.render {}).map Rendered.htmlWidth = .ok (some "300") := by decide +kernel
  cases h : thinImage.render {} with
  | error e => rw [h] at hrenders; cases hrenders
  | ok r =>
    obtain ⟨hannounced, hdropped⟩ := tag_sizes h
    exact ⟨r, rfl, hkeeps, hwidth, hwide, (hannounced.of_result "300" rfl).mpr ⟨hwidth, hkeeps, hwide⟩, hheight, hthin,
      (hdropped.dropped_iff "80" "0.5" rfl hheight).mpr fun h => hthin h.2⟩

end Transformation

end DeliveryPath
