import DeliveryPath.Proofs.ComponentOrder
import DeliveryPath.Proofs.Tokens

/-!
# Clip ranges

The number of a point ends with a digit, and its percent mark is no digit, so a point is read in one way only
(`clipPoint?_eq_some_iff`). No two dots stand side by side within a point, and it does not end with one. So the cut of
a range is between its two points, and each of them is shown (`clip_range_points`).
-/

namespace DeliveryPath

/-! ## Points -/

/-- The texts of points. -/
def clipPoint : Pattern := .seq timeNumber percentMark

theorem isDecimalDigit_of_isPercentMark {c : Char} (h : isPercentMark c = true) : isDecimalDigit c = false := by
  simp only [isPercentMark, Bool.or_eq_true, beq_iff_eq] at h
  rcases h with (rfl | rfl) | rfl <;> decide

theorem ne_dot_of_isPercentMark {c : Char} (h : isPercentMark c = true) : c ≠ '.' := by
  rintro rfl
  exact absurd h (by decide)

theorem ne_dot_of_isDecimalDigit {c : Char} (h : isDecimalDigit c = true) : c ≠ '.' := by
  rintro rfl
  exact absurd h (by decide)

theorem matches_timeNumber_iff {cs : List Char} : timeNumber.Matches cs ↔
    (Pattern.run isDecimalDigit).Matches cs ∨ ∃ whole fraction, cs = whole ++ '.' :: fraction ∧
      (Pattern.run isDecimalDigit).Matches whole ∧ (Pattern.run isDecimalDigit).Matches fraction := by
  constructor
  · rintro ⟨_, fraction, rfl, rfl | ⟨whole, _, rfl, hwhole, dot, rfl, hdot⟩, hfraction⟩
    · exact .inl hfraction
    · rw [beq_iff_eq] at hdot
      exact .inr ⟨whole, fraction, by rw [hdot, List.append_assoc]; rfl, hwhole, hfraction⟩
  · rintro (h | ⟨whole, fraction, rfl, hwhole, hfraction⟩)
    · exact ⟨[], cs, rfl, .inl rfl, h⟩
    · exact ⟨whole ++ ['.'], fraction, by simp, .inr ⟨whole, ['.'], rfl, hwhole, '.', rfl, rfl⟩, hfraction⟩

theorem exists_last_of_matches_timeNumber {cs : List Char} (h : timeNumber.Matches cs) :
    ∃ front last, cs = front ++ [last] ∧ isDecimalDigit last = true := by
  obtain ⟨front, digits, rfl, -, hne, hdigits⟩ := h
  obtain ⟨init, last, rfl⟩ := (List.eq_nil_or_concat digits).resolve_left hne
  exact ⟨front ++ init, last, by simp, hdigits last (by simp)⟩

theorem ne_concat_of_isPercentMark {cs front : List Char} {c : Char} (h : timeNumber.Matches cs)
    (hc : isPercentMark c = true) : cs ≠ front ++ [c] := by
  rintro rfl
  obtain ⟨init, last, hlast, hdigit⟩ := exists_last_of_matches_timeNumber h
  obtain ⟨-, hsame⟩ := List.append_inj' hlast rfl
  rw [← List.singleton_inj.mp hsame, isDecimalDigit_of_isPercentMark hc] at hdigit
  cases hdigit

/-- The text is a number with a percent mark after it, or with nothing after it. -/
structure IsPoint (cs number mark : List Char) : Prop where
  eq_append : cs = number ++ mark
  number : timeNumber.Matches number
  mark : percentMark.Matches mark

/-- How a point is shown. -/
def pointText (number mark : List Char) : String := String.ofList (number ++ mark.map fun _ => 'p')

namespace IsPoint
variable {cs number mark number' mark' : List Char}

theorem unique (h : IsPoint cs number mark) (h' : IsPoint cs number' mark') : number = number' ∧ mark = mark' := by
  have heq := h.eq_append.symm.trans h'.eq_append
  rcases h.mark with rfl | ⟨c, rfl, hc⟩ <;> rcases h'.mark with rfl | ⟨d, rfl, hd⟩
  · exact ⟨by simpa using heq, rfl⟩
  · rw [List.append_nil] at heq
    exact absurd heq (ne_concat_of_isPercentMark h.number hd)
  · rw [List.append_nil] at heq
    exact absurd heq.symm (ne_concat_of_isPercentMark h'.number hc)
  · exact List.append_inj' heq rfl

theorem isPoint_pointText (h : IsPoint cs number mark) :
    IsPoint (pointText number mark).toList number (mark.map fun _ => 'p') where
  eq_append := String.toList_ofList
  number := h.number
  mark := by
    rcases h.mark with rfl | ⟨c, rfl, -⟩
    · exact .inl rfl
    · exact .inr ⟨'p', rfl, rfl⟩

end IsPoint

theorem exists_isPoint_of_clipPoint? {text point : String} (h : clipPoint? text = some point) :
    ∃ number mark, IsPoint text.toList number mark ∧ point = pointText number mark := by
  obtain ⟨rest, hrest, h⟩ := List.exists_of_findSome?_eq_some h
  obtain ⟨number, htext, hnumber⟩ := Pattern.mem_rests_iff.mp hrest
  match rest, h with
  | [], h =>
    cases h
    refine ⟨number, [], ⟨htext, hnumber, .inl rfl⟩, ?_⟩
    rw [pointText, List.map_nil, ← htext, String.ofList_toList]
  | [c], h =>
    dsimp only at h
    split at h
    · next hc =>
      cases h
      refine ⟨number, [c], ⟨htext, hnumber, .inr ⟨c, rfl, hc⟩⟩, ?_⟩
      rw [htext, List.dropLast_concat]
      rfl
    · cases h

theorem IsPoint.exists_clipPoint? {text : String} {number mark : List Char} (h : IsPoint text.toList number mark) :
    ∃ point, clipPoint? text = some point := by
  rw [← Option.isSome_iff_exists, clipPoint?, List.findSome?_isSome_iff]
  refine ⟨mark, Pattern.mem_rests_iff.mpr ⟨number, h.eq_append, h.number⟩, ?_⟩
  rcases h.mark with rfl | ⟨c, rfl, hc⟩
  · rfl
  · simp [hc]

theorem clipPoint?_eq_some_iff {text point : String} : clipPoint? text = some point ↔
    ∃ number mark, IsPoint text.toList number mark ∧ point = pointText number mark := by
  constructor
  · exact exists_isPoint_of_clipPoint?
  · rintro ⟨number, mark, h, rfl⟩
    obtain ⟨point, hpoint⟩ := h.exists_clipPoint?
    obtain ⟨number', mark', h', rfl⟩ := exists_isPoint_of_clipPoint? hpoint
    obtain ⟨rfl, rfl⟩ := h.unique h'
    exact hpoint

theorem isSome_clipPoint?_iff {text : String} : (clipPoint? text).isSome = true ↔ clipPoint.Matches text.toList := by
  rw [Option.isSome_iff_exists]
  constructor
  · rintro ⟨point, h⟩
    obtain ⟨number, mark, h, -⟩ := exists_isPoint_of_clipPoint? h
    exact ⟨number, mark, h.eq_append, h.number, h.mark⟩
  · rintro ⟨number, mark, heq, hnumber, hmark⟩
    exact IsPoint.exists_clipPoint? ⟨heq, hnumber, hmark⟩

theorem clipPoint?_idempotent {text point : String} (h : clipPoint? text = some point) :
    clipPoint? point = some point := by
  obtain ⟨number, mark, hpoint, rfl⟩ := exists_isPoint_of_clipPoint? h
  refine clipPoint?_eq_some_iff.mpr ⟨number, _, hpoint.isPoint_pointText, ?_⟩
  rw [pointText, pointText, List.map_map]
  rfl

/-! ## Points in a path -/

/-- The characters of a point whose percents are marked by `p`. -/
def isPointCharacter (c : Char) : Bool := isDecimalDigit c || c == '.' || c == 'p'

theorem plain_of_isPointCharacter {cs : List Char} (h : ∀ c ∈ cs, isPointCharacter c = true) : Plain cs where
  separator c hc := by
    have hpoint := h c hc
    cases hsep : isSeparator c with
    | false => rfl
    | true =>
      simp only [isSeparator, Bool.or_eq_true, beq_iff_eq] at hsep
      rcases hsep with rfl | rfl <;> exact absurd hpoint (by decide)
  dollar hc := absurd (h '$' hc) (by decide)
  symbol o ho := by
    have hother : o.symbol.toList.all isPointCharacter = false := by cases o <;> decide +kernel
    obtain ⟨c, hc, hfalse⟩ := List.all_eq_false.mp hother
    exact hfalse (h c (ho.subset hc))
  name word hw hin := by
    have hother : ∀ word ∈ nameWords, word.toList.all isPointCharacter = false := by decide +kernel
    obtain ⟨c, hc, hfalse⟩ := List.all_eq_false.mp (hother word hw)
    exact hfalse (h c (hin.subset hc))

theorem isPointCharacter_of_matches {cs : List Char} (h : timeNumber.Matches cs) :
    ∀ c ∈ cs, isPointCharacter c = true := by
  have hdigit : ∀ {digits : List Char}, (Pattern.run isDecimalDigit).Matches digits →
      ∀ c ∈ digits, isPointCharacter c = true := by
    intro digits hdigits c hc
    rw [isPointCharacter, hdigits.2 c hc]
    rfl
  rcases matches_timeNumber_iff.mp h with h | ⟨whole, fraction, rfl, hwhole, hfraction⟩
  · exact hdigit h
  · rw [List.forall_mem_append, List.forall_mem_cons]
    exact ⟨hdigit hwhole, by decide, hdigit hfraction⟩

theorem normalize_of_clipPoint? {text point : String} (h : clipPoint? text = some point) :
    normalize point = point := by
  obtain ⟨number, mark, hpoint, rfl⟩ := exists_isPoint_of_clipPoint? h
  have hplain : Plain (number ++ mark.map fun _ => 'p') := by
    refine plain_of_isPointCharacter (List.forall_mem_append.mpr ⟨isPointCharacter_of_matches hpoint.number, ?_⟩)
    intro c hc
    rw [List.eq_of_mem_map_const hc]
    rfl
  rw [← String.toList_inj, toList_normalize, pointText, String.toList_ofList, hplain.compact_eq_self]

/-! ## Ranges -/

theorem matches_clipRange_iff {cs : List Char} : clipRange.Matches cs ↔
    ∃ start stop, cs = start ++ ['.', '.'] ++ stop ∧ clipPoint.Matches start ∧ clipPoint.Matches stop := by
  have hdots : ∀ {dots : List Char}, twoDots.Matches dots ↔ dots = ['.', '.'] := by
    intro dots
    constructor
    · rintro ⟨_, _, rfl, ⟨c, rfl, hc⟩, d, rfl, hd⟩
      rw [beq_iff_eq.mp hc, beq_iff_eq.mp hd]
      rfl
    · rintro rfl
      exact ⟨['.'], ['.'], rfl, ⟨'.', rfl, rfl⟩, '.', rfl, rfl⟩
  rw [clipRange, ← Pattern.matches_seq_assoc, ← Pattern.matches_seq_assoc]
  constructor
  · rintro ⟨_, stop, rfl, ⟨start, _, rfl, hstart, hd⟩, hstop⟩
    exact ⟨start, stop, by rw [hdots.mp hd], hstart, hstop⟩
  · rintro ⟨start, stop, rfl, hstart, hstop⟩
    exact ⟨_, stop, rfl, ⟨start, _, rfl, hstart, hdots.mpr rfl⟩, hstop⟩

/-- The first two dots after a point are those that follow it. -/
theorem cut?_point {u : List Char} (h : clipPoint.Matches u) (v : List Char) :
    cut? ['.', '.'] (u ++ ['.', '.'] ++ v) = some (u, v) := by
  obtain ⟨number, mark, rfl, hnumber, hmark⟩ := h
  have hnodot : ∀ {digits : List Char}, (Pattern.run isDecimalDigit).Matches digits → '.' ∉ digits ++ mark := by
    intro digits hdigits hmem
    rcases List.mem_append.mp hmem with hmem | hmem
    · exact ne_dot_of_isDecimalDigit (hdigits.2 _ hmem) rfl
    · rcases hmark with rfl | ⟨c, rfl, hc⟩
      · cases hmem
      · exact ne_dot_of_isPercentMark hc (List.mem_singleton.mp hmem).symm
  rcases matches_timeNumber_iff.mp hnumber with hdigits | ⟨whole, fraction, rfl, hwhole, hfraction⟩
  · rw [List.append_assoc, cut?_append_of_not_mem _ _ (hnodot hdigits), cut?_append, Option.map_some, List.append_nil]
  · have hdot : '.' ∉ whole := fun hmem => hnodot hwhole (List.mem_append_left _ hmem)
    obtain ⟨d, digits, rfl⟩ := List.exists_cons_of_ne_nil hfraction.1
    -- the dot of the fraction has a digit after it
    have hfront : dropFront? ['.', '.'] ('.' :: (d :: digits ++ mark ++ (['.', '.'] ++ v))) = none := by
      have hd : '.' ≠ d := (ne_dot_of_isDecimalDigit (hfraction.2 d (List.mem_cons_self ..))).symm
      simp [dropFront?, hd]
    have hparts : whole ++ '.' :: (d :: digits) ++ mark ++ ['.', '.'] ++ v =
        whole ++ '.' :: (d :: digits ++ mark ++ (['.', '.'] ++ v)) := by simp
    rw [hparts, cut?_append_of_not_mem _ _ hdot, cut?_cons hfront, cut?_append_of_not_mem _ _ (hnodot hfraction),
      cut?_append]
    simp

theorem clipRange?_eq_some_iff {range start stop : String} : clipRange? range = some (start, stop) ↔
    range = start ++ ".." ++ stop ∧ (clipPoint? start).isSome = true ∧ (clipPoint? stop).isSome = true := by
  have hdots : (start ++ ".." ++ stop).toList = start.toList ++ ['.', '.'] ++ stop.toList := by simp
  rw [isSome_clipPoint?_iff, isSome_clipPoint?_iff, ← String.toList_inj, hdots, clipRange?]
  constructor
  · intro h
    split at h
    · next hrange =>
      obtain ⟨u, v, heq, hu, hv⟩ := matches_clipRange_iff.mp (Pattern.describes_iff.mp hrange)
      rw [heq, cut?_point hu] at h
      cases h
      simp only [String.toList_ofList]
      exact ⟨heq, hu, hv⟩
    · cases h
  · rintro ⟨heq, hstart, hstop⟩
    have hrange : clipRange.describes range.toList = true :=
      Pattern.describes_iff.mpr (matches_clipRange_iff.mpr ⟨_, _, heq, hstart, hstop⟩)
    rw [if_pos hrange, heq, cut?_point hstart]
    simp

namespace Segment

section
variable {s : Segment} {range start stop : String} (hoffset : s.get? Parameter.offset.name = some (.scalar range))
  (hrange : clipRange? range = some (start, stop))
include hoffset hrange

theorem combinedOffset?_of_clipRange : s.combinedOffset? = some (start, stop) := by
  rw [combinedOffset?, hoffset]
  exact hrange

theorem startOffset?_of_clipRange (hstart : s.text? .startOffset = none) : s.startOffset? = clipPoint? start := by
  have hauto : start ≠ "auto" := by
    rintro rfl
    obtain ⟨-, hpoint, -⟩ := clipRange?_eq_some_iff.mp hrange
    exact absurd hpoint (by decide)
  rw [startOffset?, combinedOffset?_of_clipRange hoffset hrange, hstart]
  exact if_neg hauto

theorem endOffset?_of_clipRange (hstop : s.text? .endOffset = none) : s.endOffset? = clipPoint? stop := by
  rw [endOffset?, combinedOffset?_of_clipRange hoffset hrange, hstop]
  rfl

end

/-- A core parameter that resolves to a point is shown as it resolves. -/
theorem point_mem_components_iff {s : Segment} {c : RenderContext} {key text point shown : String} {p : Parameter}
    (hp : (key, p) ∈ Parameter.core) (hresolved : s.resolved? c p = clipPoint? text)
    (hpoint : clipPoint? text = some point) : .entry key shown ∈ s.components c ↔ shown = point := by
  rw [core_entry_mem_components_iff hp, hresolved, hpoint]
  simp [normalize_of_clipPoint? hpoint]

/-- A start and an end are a range if and only if each of them is a point. A range that is cut is its start and its
end with two dots between them. What a point is shown as is a point itself, shown as it is, and compact already. So a
range that a segment holds, and no single offset with it, shows a start and an end, which are those of the range. -/
theorem clip_range_points :
    (∀ start stop : String, clipRange? (start ++ ".." ++ stop) = some (start, stop) ↔
      (clipPoint? start).isSome = true ∧ (clipPoint? stop).isSome = true) ∧
    (∀ {range start stop : String}, clipRange? range = some (start, stop) → range = start ++ ".." ++ stop) ∧
    (∀ {text point : String}, clipPoint? text = some point →
      clipPoint? point = some point ∧ normalize point = point) ∧
    ∀ {s : Segment} {range start stop : String}, s.get? Parameter.offset.name = some (.scalar range) →
      s.text? .startOffset = none → s.text? .endOffset = none → clipRange? range = some (start, stop) →
        ∃ first last, clipPoint? start = some first ∧ clipPoint? stop = some last ∧
          ∀ c text, (.entry "so" text ∈ s.components c ↔ text = first) ∧
            (.entry "eo" text ∈ s.components c ↔ text = last) := by
  refine ⟨?_, ?_, ?_, ?_⟩
  · intro start stop
    rw [clipRange?_eq_some_iff]
    simp only [true_and]
  · intro range start stop h
    exact (clipRange?_eq_some_iff.mp h).1
  · intro text point h
    exact ⟨clipPoint?_idempotent h, normalize_of_clipPoint? h⟩
  · intro s range start stop hoffset hstart hstop hrange
    obtain ⟨-, hfirst, hlast⟩ := clipRange?_eq_some_iff.mp hrange
    obtain ⟨first, hfirst⟩ := Option.isSome_iff_exists.mp hfirst
    obtain ⟨last, hlast⟩ := Option.isSome_iff_exists.mp hlast
    refine ⟨first, last, hfirst, hlast, fun c text => ⟨?_, ?_⟩⟩
    · have hresolved := startOffset?_of_clipRange hoffset hrange hstart
      exact point_mem_components_iff (p := .startOffset) (by decide) hresolved hfirst
    · have hresolved := endOffset?_of_clipRange hoffset hrange hstop
      exact point_mem_components_iff (p := .endOffset) (by decide) hresolved hlast

/-- The dot of a fraction does not end the start, and digits may be those of any script. -/
theorem clip_range_points_fraction : clipRange? "2.5..٣0%" = some ("2.5", "٣0%") ∧ clipRange? "2.5...30%" = none ∧
    clipPoint? "2.5" = some "2.5" ∧ clipPoint? "٣0%" = some "٣0p" ∧ normalize "٣0p" = "٣0p" ∧
    ∀ c text, (.entry "so" text ∈ (Transformation.empty.set .offset "2.5..٣0%").current.components c ↔ text = "2.5") ∧
      (.entry "eo" text ∈ (Transformation.empty.set .offset "2.5..٣0%").current.components c ↔ text = "٣0p") := by
  obtain ⟨hrange, -, hpoint, hsegment⟩ := clip_range_points
  have hstart : clipPoint? "2.5" = some "2.5" := by decide +kernel
  have hstop : clipPoint? "٣0%" = some "٣0p" := by decide +kernel
  have hcut : clipRange? "2.5..٣0%" = some ("2.5", "٣0%") :=
    (hrange "2.5" "٣0%").mpr ⟨by rw [hstart]; rfl, by rw [hstop]; rfl⟩
  obtain ⟨first, last, hfirst, hlast, hshown⟩ :=
    hsegment (s := (Transformation.empty.set .offset "2.5..٣0%").current) rfl rfl rfl hcut
  cases hstart.symm.trans hfirst
  cases hstop.symm.trans hlast
  exact ⟨hcut, by decide +kernel, hstart, hstop, (hpoint hstop).2, hshown⟩

end Segment

end DeliveryPath
