import Mathlib.Data.List.Basic
import DeliveryPath.Layer.Render
import DeliveryPath.Proofs.ByteOrder
import DeliveryPath.Proofs.References

/-!
# Overlay text in a path

Encoded overlay text holds none of the characters at which paths and layers are cut. One round of percent decoding
gives the text back with its commas and slashes escaped, and references pass through as they are
(`Layer.text_survives`).
-/

namespace DeliveryPath

/-! ## Percent decoding -/

namespace Percent

/-- Wherever the characters stand, the bytes are what they are decoded to. -/
def Decodes (cs : List Char) (bytes : List UInt8) : Prop :=
  ∀ rest, decode? (cs ++ rest) = (decode? rest).map (bytes ++ ·)

theorem Decodes.decode?_eq {cs : List Char} {bytes : List UInt8} (h : Decodes cs bytes) : decode? cs = some bytes := by
  have hnil := h []
  rw [List.append_nil] at hnil
  simp [hnil, decode?]

theorem decodes_nil : Decodes [] [] := by
  intro rest
  simp

theorem Decodes.append {cs ds : List Char} {bytes others : List UInt8} (h : Decodes cs bytes)
    (h' : Decodes ds others) : Decodes (cs ++ ds) (bytes ++ others) := by
  intro rest
  rw [List.append_assoc, h, h', Option.map_map]
  simp [Function.comp_def]

theorem Decodes.flatMap {α : Type} {f : α → List Char} {g : α → List UInt8} : ∀ {as : List α},
    (∀ a ∈ as, Decodes (f a) (g a)) → Decodes (as.flatMap f) (as.flatMap g)
  | [], _ => decodes_nil
  | a :: as, h => by
    rw [List.forall_mem_cons] at h
    rw [List.flatMap_cons, List.flatMap_cons]
    exact h.1.append (Decodes.flatMap h.2)

theorem decodes_singleton {c : Char} (h : c ≠ '%') : Decodes [c] (String.utf8EncodeChar c) := by
  intro rest
  rw [List.singleton_append, decode?, if_neg h]
  intro _ _ _ he
  exact absurd he h

theorem decodes_of_not_mem {cs : List Char} (h : '%' ∉ cs) : Decodes cs (cs.flatMap String.utf8EncodeChar) := by
  have hchars : Decodes (cs.flatMap fun c => [c]) (cs.flatMap String.utf8EncodeChar) :=
    Decodes.flatMap fun c hc => decodes_singleton fun he => h (he ▸ hc)
  rwa [List.flatMap_singleton'] at hchars

theorem decodes_escapeByte (b : UInt8) : Decodes (escapeByte b) [b] := by
  intro rest
  have hb : b.toNat < 256 := b.toNat_lt
  have hvalue : 16 * (b.toNat / 16) + b.toNat % 16 = b.toNat := by omega
  have hhigh := hexValue?_hexDigit (n := b.toNat / 16) (by omega)
  have hlow := hexValue?_hexDigit (n := b.toNat % 16) (by omega)
  simp only [escapeByte, List.cons_append, List.nil_append, decode?, hhigh, hlow, Option.bind_eq_bind, Option.bind_some,
    hvalue, UInt8.ofNat_toNat]
  cases decode? rest <;> rfl

/-- The characters that overlay text must not hold, and the percent sign, are not unreserved. -/
theorem not_mem_of_isUnreserved {c : Char} (h : isUnreserved c = true) : c ∉ ['%', ',', '/', ':'] := by
  intro hc
  simp only [List.mem_cons, List.not_mem_nil, or_false] at hc
  obtain rfl | rfl | rfl | rfl := hc <;> exact absurd h (by decide)

theorem decodes_encodeChar (c : Char) : Decodes (encodeChar c) (String.utf8EncodeChar c) := by
  unfold encodeChar
  cases hc : isUnreserved c with
  | true => exact decodes_singleton fun he => not_mem_of_isUnreserved hc (by simp [he])
  | false =>
    have h : Decodes ((String.utf8EncodeChar c).flatMap escapeByte) ((String.utf8EncodeChar c).flatMap fun b => [b]) :=
      Decodes.flatMap fun b _ => decodes_escapeByte b
    rwa [List.flatMap_singleton'] at h

end Percent

/-! ## References -/

/-- A dollar sign and, in parentheses, a letter followed by word characters. -/
def IsTextReference (cs : List Char) : Prop :=
  ∃ c name, cs = '$' :: '(' :: c :: (name ++ [')']) ∧ c.isAlpha = true ∧ ∀ d ∈ name, isWordCharacter d = true

theorem isWordCharacter_mark {c : Char} (h : c ∈ ['$', ')', '%', ',', '/', ':']) : isWordCharacter c = false := by
  have hall : ['$', ')', '%', ',', '/', ':'].all (!isWordCharacter ·) = true := by decide +kernel
  simpa using List.all_eq_true.mp hall c h

theorem isWordCharacter_of_isAlpha {c : Char} (h : c.isAlpha = true) : isWordCharacter c = true := by
  simp [isWordCharacter, Char.isAlphanum, h]

theorem textReferenceAt?_eq_some_iff {cs reference rest : List Char} :
    textReferenceAt? cs = some (reference, rest) ↔ cs = reference ++ rest ∧ IsTextReference reference := by
  constructor
  · intro h
    refine ⟨(append_of_textReferenceAt? h).1, ?_⟩
    unfold textReferenceAt? at h
    split at h
    · next c tail =>
      split at h
      · split at h
        · next hc =>
          simp only [Option.some.injEq, Prod.mk.injEq] at h
          exact ⟨c, tail.takeWhile isWordCharacter, h.1.symm, hc, List.all_eq_true.mp List.all_takeWhile⟩
        · cases h
      · cases h
    · cases h
  · rintro ⟨rfl, c, name, rfl, hc, hname⟩
    have hclose : ∀ d ∈ (')' :: rest).head?, isWordCharacter d = false := by
      intro d hd
      cases hd
      exact isWordCharacter_mark (by decide)
    have hsplit := takeWhile_dropWhile_append hname hclose
    simp [textReferenceAt?, hsplit.1, hsplit.2, hc]

namespace IsTextReference

variable {reference : List Char} (h : IsTextReference reference)
include h

theorem exists_word : ∃ word, reference = '$' :: '(' :: (word ++ [')']) ∧
    ∀ d, isWordCharacter d = false → d ∉ word := by
  obtain ⟨c, name, rfl, hc, hname⟩ := h
  have hword : ∀ d ∈ c :: name, isWordCharacter d = true :=
    List.forall_mem_cons.mpr ⟨isWordCharacter_of_isAlpha hc, hname⟩
  refine ⟨c :: name, rfl, fun d hd hm => ?_⟩
  rw [hword d hm] at hd
  cases hd

theorem reserved_not_mem {d : Char} (hd : d ∈ ['%', ',', '/', ':']) : d ∉ reference := by
  have hreserved : d ∉ ['$', '(', ')'] ∧ isWordCharacter d = false := by
    simp only [List.mem_cons, List.not_mem_nil, or_false] at hd
    obtain rfl | rfl | rfl | rfl := hd <;> exact ⟨by decide, isWordCharacter_mark (by decide)⟩
  obtain ⟨hmark, hother⟩ := hreserved
  obtain ⟨word, rfl, hword⟩ := h.exists_word
  simp only [List.mem_cons, List.not_mem_nil, or_false, not_or] at hmark
  simp [hmark, hword d hother]

theorem exists_tail : ∃ tail, reference = '$' :: tail ∧ '$' ∉ tail := by
  obtain ⟨word, rfl, hword⟩ := h.exists_word
  have hdollar : '$' ∉ word := hword '$' (isWordCharacter_mark (by decide))
  exact ⟨_, rfl, by simp [hdollar]⟩

end IsTextReference

/-! ## Separators -/

/-- A comma or a slash as its escape. -/
def escapeSeparator (c : Char) : List Char :=
  if c = ',' then ['%', '2', 'C'] else if c = '/' then ['%', '2', 'F'] else [c]

def escapeSeparators (text : String) : String := String.ofList (text.toList.flatMap escapeSeparator)

theorem decodes_escapeOverlayChar (c : Char) :
    Percent.Decodes (escapeOverlayChar c) ((escapeSeparator c).flatMap String.utf8EncodeChar) := by
  have hpercent : Percent.Decodes ['%', '2', '5'] [0x25] := Percent.decodes_escapeByte 0x25
  by_cases hcomma : c = ','
  · subst hcomma
    exact hpercent.append (@Percent.decodes_of_not_mem ['2', 'C'] (by decide))
  by_cases hslash : c = '/'
  · subst hslash
    exact hpercent.append (@Percent.decodes_of_not_mem ['2', 'F'] (by decide))
  · have h := Percent.decodes_encodeChar c
    simp only [escapeOverlayChar, escapeSeparator, if_neg hcomma, if_neg hslash, List.flatMap_singleton]
    exact h

theorem flatMap_escapeSeparator_of_not_mem {cs : List Char} (hcomma : ',' ∉ cs) (hslash : '/' ∉ cs) :
    cs.flatMap escapeSeparator = cs := by
  have hsame : ∀ c ∈ cs, escapeSeparator c = [c] := by
    intro c hc
    rw [escapeSeparator, if_neg (ne_of_mem_of_not_mem hc hcomma), if_neg (ne_of_mem_of_not_mem hc hslash)]
  rw [List.flatMap_congr hsame, List.flatMap_singleton']

theorem decodes_encodeOverlayText (cs : List Char) :
    Percent.Decodes (encodeOverlayText cs) ((cs.flatMap escapeSeparator).flatMap String.utf8EncodeChar) := by
  induction cs using encodeOverlayText.induct with
  | case1 cs reference rest h _ ih =>
    obtain ⟨rfl, hr⟩ := textReferenceAt?_eq_some_iff.mp h
    have hsame := flatMap_escapeSeparator_of_not_mem (hr.reserved_not_mem (by decide)) (hr.reserved_not_mem (by decide))
    rw [encodeOverlayText_of_textReferenceAt? h, List.flatMap_append, List.flatMap_append, hsame]
    exact (Percent.decodes_of_not_mem (hr.reserved_not_mem (by decide))).append ih
  | case2 h =>
    rw [encodeOverlayText_nil]
    exact Percent.decodes_nil
  | case3 c rest h ih =>
    rw [encodeOverlayText_cons h, List.flatMap_cons, List.flatMap_append]
    exact (decodes_escapeOverlayChar c).append ih

/-! ## Characters that cut a path -/

/-- None of the characters at which a path, a segment or a layer is cut. -/
def HasNoCut (cs : List Char) : Prop := ∀ c ∈ cs, c ∉ [',', '/', ':']

instance (cs : List Char) : Decidable (HasNoCut cs) := List.decidableBAll _ cs

theorem HasNoCut.append {cs ds : List Char} (h : HasNoCut cs) (h' : HasNoCut ds) : HasNoCut (cs ++ ds) :=
  List.forall_mem_append.mpr ⟨h, h'⟩

theorem hasNoCut_escapeByte (b : UInt8) : HasNoCut (Percent.escapeByte b) := by
  have hdigits : ∀ n ∈ List.range 16, hexDigit n ∉ [',', '/', ':'] := by decide
  have hb : b.toNat < 256 := b.toNat_lt
  intro c hc
  simp only [Percent.escapeByte, List.mem_cons, List.not_mem_nil, or_false] at hc
  obtain rfl | rfl | rfl := hc
  · decide
  · exact hdigits _ (List.mem_range.mpr (by omega))
  · exact hdigits _ (List.mem_range.mpr (by omega))

theorem hasNoCut_escapeOverlayChar (c : Char) : HasNoCut (escapeOverlayChar c) := by
  unfold escapeOverlayChar Percent.encodeChar
  split_ifs with hcomma hslash hc
  · decide
  · decide
  · exact List.forall_mem_singleton.mpr fun hm => Percent.not_mem_of_isUnreserved hc (List.mem_cons_of_mem _ hm)
  · intro d hd
    obtain ⟨b, -, hb⟩ := List.mem_flatMap.mp hd
    exact hasNoCut_escapeByte b d hb

theorem hasNoCut_encodeOverlayText (cs : List Char) : HasNoCut (encodeOverlayText cs) := by
  induction cs using encodeOverlayText.induct with
  | case1 cs reference rest h _ ih =>
    obtain ⟨rfl, hr⟩ := textReferenceAt?_eq_some_iff.mp h
    rw [encodeOverlayText_of_textReferenceAt? h]
    have hreference : HasNoCut reference := fun c hc hm => hr.reserved_not_mem (List.mem_cons_of_mem _ hm) hc
    exact hreference.append ih
  | case2 h =>
    rw [encodeOverlayText_nil]
    exact fun _ hc => absurd hc List.not_mem_nil
  | case3 c rest h ih =>
    rw [encodeOverlayText_cons h]
    exact (hasNoCut_escapeOverlayChar c).append ih

/-! ## References within a text -/

/-- No reference begins inside another, so each one stays in sight when text is put in front. -/
theorem textReferenceAt?_append_eq_none {c : Char} {rest reference : List Char} (h : IsTextReference reference)
    (hnone : textReferenceAt? (c :: rest) = none) (after : List Char) :
    textReferenceAt? (c :: rest ++ (reference ++ after)) = none := by
  rw [Option.eq_none_iff_forall_ne_some]
  rintro ⟨r, tail⟩ hr
  obtain ⟨heq, hreference⟩ := textReferenceAt?_eq_some_iff.mp hr
  have hlonger : ∀ u, c :: rest ≠ r ++ u := by
    intro u hu
    rw [textReferenceAt?_eq_some_iff.mpr ⟨hu, hreference⟩] at hnone
    cases hnone
  obtain ⟨u, hu, hafter⟩ | ⟨u, hu, -⟩ := List.append_eq_append_iff.mp heq
  · -- what `r` takes beyond the text in front begins with a dollar sign
    cases u with
    | nil => exact hlonger [] (by rw [hu, List.append_nil, List.append_nil])
    | cons d u =>
      obtain ⟨inner, rfl, -⟩ := h.exists_tail
      obtain ⟨tail', rfl, hdollar⟩ := hreference.exists_tail
      rw [List.cons_append, List.cons.injEq] at hu
      rw [List.cons_append, List.cons_append, List.cons.injEq] at hafter
      exact hdollar (by rw [hu.2, ← hafter.1]; simp)
  · exact hlonger u hu

theorem encodeOverlayText_append_reference (before : List Char) {reference : List Char} (h : IsTextReference reference)
    (after : List Char) : encodeOverlayText (before ++ (reference ++ after)) =
      encodeOverlayText before ++ (reference ++ encodeOverlayText after) := by
  induction before using encodeOverlayText.induct with
  | case1 before r rest hr _ ih =>
    obtain ⟨rfl, hreference⟩ := textReferenceAt?_eq_some_iff.mp hr
    have hr' := textReferenceAt?_eq_some_iff.mpr ⟨List.append_assoc r rest (reference ++ after), hreference⟩
    rw [encodeOverlayText_of_textReferenceAt? hr, encodeOverlayText_of_textReferenceAt? hr', ih, List.append_assoc]
  | case2 hnone =>
    rw [encodeOverlayText_nil, List.nil_append, List.nil_append]
    exact encodeOverlayText_of_textReferenceAt? (textReferenceAt?_eq_some_iff.mpr ⟨rfl, h⟩)
  | case3 c rest hnone ih =>
    have hnone' := textReferenceAt?_append_eq_none h hnone after
    rw [List.cons_append] at hnone' ⊢
    rw [encodeOverlayText_cons hnone', encodeOverlayText_cons hnone, ih, List.append_assoc]

/-! ## Text layers -/

/-- The text of a layer is the last of its parts. It can be read back from there, and references stand in it as they
stand in the text. -/
theorem Layer.text_survives {l : Layer} (hkind : l.kind = .text) {text : String} (ht : l.value .text = some text)
    (hne : text ≠ "") : ∃ component, l.text? = some component ∧
      l.render = l.textStyle.map (fun style? =>
        ":".intercalate ("text" :: style?.toList ++ l.publicId?.toList ++ [component])) ∧
      (∀ c ∈ component.toList, c ∉ [',', '/', ':']) ∧
      Percent.decode? component.toList = some (utf8 (escapeSeparators text)) ∧
      ∀ before reference after, IsTextReference reference → text.toList = before ++ (reference ++ after) →
        component.toList = encodeOverlayText before ++ (reference ++ encodeOverlayText after) := by
  have htext : l.text? = some (String.ofList (encodeOverlayText text.toList)) := by
    rw [Layer.text?, Layer.given?, ht, given_eq_some_iff.mpr ⟨rfl, hne⟩, Option.map_some]
  refine ⟨_, htext, ?_, ?_, ?_, ?_⟩
  · have hgiven : ∃ part, l.publicId?.or (some (String.ofList (encodeOverlayText text.toList))) = some part := by
      cases l.publicId? <;> simp
    obtain ⟨part, hpart⟩ := hgiven
    unfold Layer.render Layer.parts
    rw [hkind, htext, hpart]
    cases l.textStyle <;> rfl
  · rw [String.toList_ofList]
    exact hasNoCut_encodeOverlayText text.toList
  · rw [String.toList_ofList, utf8_eq, escapeSeparators, String.toList_ofList]
    exact (decodes_encodeOverlayText text.toList).decode?_eq
  · intro before reference after h hsplit
    rw [String.toList_ofList, hsplit]
    exact encodeOverlayText_append_reference before h after

def ratioCaption : Layer := (Layer.ofKind .text).put .text "1/2: $(größe), 50%"

theorem Layer.text_survives_ratioCaption : ratioCaption.kind = .text ∧
    ratioCaption.value .text = some "1/2: $(größe), 50%" ∧ "1/2: $(größe), 50%" ≠ "" ∧
    ratioCaption.render = .ok "text:1%252F2%3A%20$(größe)%252C%2050%25" ∧
    ∃ component, ratioCaption.text? = some component ∧ ratioCaption.render = .ok (":".intercalate ["text", component]) ∧
      (∀ c ∈ component.toList, c ∉ [',', '/', ':']) ∧
      Percent.decode? component.toList = some (utf8 "1%2F2: $(größe)%2C 50%") ∧
      ∃ u v, component.toList = u ++ ("$(größe)".toList ++ v) := by
  have hvalue : ratioCaption.value .text = some "1/2: $(größe), 50%" := rfl
  have hne : "1/2: $(größe), 50%" ≠ "" := by decide
  have hescaped : escapeSeparators "1/2: $(größe), 50%" = "1%2F2: $(größe)%2C 50%" := by decide
  have hword : "röße".toList.all isWordCharacter = true := by decide
  have href : IsTextReference "$(größe)".toList := ⟨'g', "röße".toList, by decide, by decide, List.all_eq_true.mp hword⟩
  obtain ⟨component, htext, hrender, hcut, hdecode, hkept⟩ := @Layer.text_survives ratioCaption rfl _ hvalue hne
  rw [hescaped] at hdecode
  exact ⟨rfl, hvalue, hne, by decide +kernel, component, htext, hrender, hcut, hdecode, _, _,
    hkept "1/2: ".toList _ ", 50%".toList href (by decide)⟩

end DeliveryPath
