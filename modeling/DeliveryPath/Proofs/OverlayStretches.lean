import DeliveryPath.Proofs.OverlayEncoding

/-!
# Overlay text by stretches

Overlay text is encoded stretch by stretch, from one reference to the next (`encodeOverlayText_step`). A stretch is
encoded as a whole, and what commas and slashes have become in it is then escaped again (`encodeStretch_eq`).
-/

namespace DeliveryPath

/-! ## Rewriting escapes -/

/-- Percent escapes of the byte with the digits `2` and `d` are themselves escaped. -/
def escapeAgain (d : Char) : List Char → List Char
  | '%' :: '2' :: c :: rest =>
    if c = d then '%' :: '2' :: '5' :: '2' :: d :: escapeAgain d rest else '%' :: escapeAgain d ('2' :: c :: rest)
  | c :: rest => c :: escapeAgain d rest
  | [] => []

/-- Wherever the characters stand, they are rewritten to the others. -/
def Rewrites (d : Char) (cs ds : List Char) : Prop :=
  ∀ rest, escapeAgain d (cs ++ rest) = ds ++ escapeAgain d rest

theorem Rewrites.escapeAgain_eq {d : Char} {cs ds : List Char} (h : Rewrites d cs ds) : escapeAgain d cs = ds := by
  have hnil := h []
  rwa [List.append_nil, escapeAgain, List.append_nil] at hnil

theorem Rewrites.append {d : Char} {cs ds cs' ds' : List Char} (h : Rewrites d cs ds) (h' : Rewrites d cs' ds') :
    Rewrites d (cs ++ cs') (ds ++ ds') := by
  intro rest
  rw [List.append_assoc, h, h', List.append_assoc]

theorem Rewrites.flatMap {α : Type} {d : Char} {f g : α → List Char} : ∀ {as : List α},
    (∀ a ∈ as, Rewrites d (f a) (g a)) → Rewrites d (as.flatMap f) (as.flatMap g)
  | [], _ => fun _ => rfl
  | a :: as, h => by
    rw [List.forall_mem_cons] at h
    rw [List.flatMap_cons, List.flatMap_cons]
    exact h.1.append (Rewrites.flatMap h.2)

theorem rewrites_singleton (d : Char) {c : Char} (h : c ≠ '%') : Rewrites d [c] [c] := by
  intro rest
  rw [List.singleton_append, List.singleton_append, escapeAgain]
  intro _ _ he
  exact absurd he h

theorem rewrites_escape (d : Char) : Rewrites d ['%', '2', d] ['%', '2', '5', '2', d] := by
  intro rest
  simp [escapeAgain]

theorem rewrites_escapeByte {d : Char} {b : UInt8} (h : Percent.escapeByte b ≠ ['%', '2', d]) :
    Rewrites d (Percent.escapeByte b) (Percent.escapeByte b) := by
  have hdigits : ∀ n ∈ List.range 16, hexDigit n ≠ '%' := by decide
  have hb : b.toNat < 256 := b.toNat_lt
  have hhigh := rewrites_singleton d (hdigits _ (List.mem_range.mpr (show b.toNat / 16 < 16 by omega)))
  have hlow := rewrites_singleton d (hdigits _ (List.mem_range.mpr (show b.toNat % 16 < 16 by omega)))
  intro rest
  have hdigits := hhigh.append hlow rest
  unfold Percent.escapeByte at h ⊢
  generalize hexDigit (b.toNat / 16) = high at *
  generalize hexDigit (b.toNat % 16) = low at *
  simp only [List.cons_append, List.nil_append] at hdigits ⊢
  by_cases hh : high = '2'
  · subst hh
    have hl : low ≠ d := fun he => h (he ▸ rfl)
    rw [escapeAgain, if_neg hl, hdigits]
  · rw [escapeAgain, hdigits]
    intro _ _ _ he
    exact absurd (List.cons.inj he).1 hh

/-! ## Escapes of a character -/

theorem eq_of_mem_utf8EncodeChar {c : Char} {b : UInt8} (h : b ∈ String.utf8EncodeChar c) (hb : b.toNat < 128) :
    c.toNat = b.toNat := by
  simp only [String.utf8EncodeChar] at h
  change c.val.toNat = _
  generalize c.val.toNat = n at h
  split_ifs at h <;> simp only [List.mem_cons, List.not_mem_nil, or_false] at h
  · rw [h, UInt8.toNat_ofNat']
    omega
  · obtain rfl | rfl := h <;> simp only [UInt8.toNat_ofNat'] at hb ⊢ <;> omega
  · obtain rfl | rfl | rfl := h <;> simp only [UInt8.toNat_ofNat'] at hb ⊢ <;> omega
  · obtain rfl | rfl | rfl | rfl := h <;> simp only [UInt8.toNat_ofNat'] at hb ⊢ <;> omega

theorem eq_of_escapeByte {b b' : UInt8} (h : Percent.escapeByte b = Percent.escapeByte b') : b = b' := by
  have hb := (Percent.decodes_escapeByte b).decode?_eq
  rw [h, (Percent.decodes_escapeByte b').decode?_eq] at hb
  cases hb
  rfl

theorem rewrites_encodeChar {d code : Char} {b : UInt8} (hb : b.toNat < 128) (hd : b ∈ String.utf8EncodeChar d)
    (hcode : Percent.escapeByte b = ['%', '2', code]) (hescape : Percent.encodeChar d = ['%', '2', code]) (c : Char) :
    Rewrites code (Percent.encodeChar c) (if c = d then ['%', '2', '5', '2', code] else Percent.encodeChar c) := by
  by_cases hc : c = d
  · rw [if_pos hc, hc, hescape]
    exact rewrites_escape code
  · rw [if_neg hc]
    unfold Percent.encodeChar
    split_ifs with hplain
    · exact rewrites_singleton code fun he => Percent.not_mem_of_isUnreserved hplain (by simp [he])
    · refine Rewrites.flatMap fun b' hb' => rewrites_escapeByte fun he => hc ?_
      rw [← hcode] at he
      rw [eq_of_escapeByte he] at hb'
      rw [← Char.toNat_inj, eq_of_mem_utf8EncodeChar hb' hb, eq_of_mem_utf8EncodeChar hd hb]

/-! ## Stretches of text -/

/-- The text encoded, and the escapes of commas and slashes in it escaped again. -/
def encodeStretch (cs : List Char) : List Char := escapeAgain 'F' (escapeAgain 'C' (Percent.encode cs))

theorem encodeStretch_eq (cs : List Char) : encodeStretch cs = cs.flatMap escapeOverlayChar := by
  have hcomma := @rewrites_encodeChar ',' 'C' 0x2C (by decide) (by decide) (by decide) (by decide)
  have hslash := @rewrites_encodeChar '/' 'F' 0x2F (by decide) (by decide) (by decide) (by decide)
  have hboth : ∀ c, Rewrites 'F' (if c = ',' then ['%', '2', '5', '2', 'C'] else Percent.encodeChar c)
      (escapeOverlayChar c) := by
    intro c
    unfold escapeOverlayChar
    by_cases hc : c = ','
    · have hpercent : Rewrites 'F' ['%', '2', '5'] ['%', '2', '5'] := @rewrites_escapeByte 'F' 0x25 (by decide)
      have htwo : Rewrites 'F' ['2'] ['2'] := rewrites_singleton 'F' (by decide)
      have hlast : Rewrites 'F' ['C'] ['C'] := rewrites_singleton 'F' (by decide)
      rw [if_pos hc, if_pos hc]
      exact hpercent.append (htwo.append hlast)
    · rw [if_neg hc, if_neg hc]
      exact hslash c
  rw [encodeStretch, Percent.encode, (Rewrites.flatMap fun c _ => hcomma c).escapeAgain_eq,
    (Rewrites.flatMap fun c _ => hboth c).escapeAgain_eq]

/-- No reference begins in the text. -/
def NoTextReference (cs : List Char) : Prop := ∀ v, v <:+ cs → textReferenceAt? v = none

theorem noTextReference_nil : NoTextReference [] := by
  intro v hv
  rw [List.suffix_nil.mp hv]
  rfl

theorem noTextReference_cons_iff {c : Char} {cs : List Char} :
    NoTextReference (c :: cs) ↔ textReferenceAt? (c :: cs) = none ∧ NoTextReference cs := by
  unfold NoTextReference
  simp only [List.suffix_cons_iff, forall_eq_or_imp]

theorem encodeOverlayText_of_noTextReference : ∀ {cs : List Char}, NoTextReference cs →
    encodeOverlayText cs = encodeStretch cs
  | [], _ => encodeOverlayText_nil
  | c :: cs, h => by
    rw [noTextReference_cons_iff] at h
    rw [encodeOverlayText_cons h.1, encodeOverlayText_of_noTextReference h.2, encodeStretch_eq, encodeStretch_eq,
      List.flatMap_cons]

theorem textReferenceAt?_eq_none_of_append {u v : List Char} (h : textReferenceAt? (u ++ v) = none) :
    textReferenceAt? u = none := by
  cases hu : textReferenceAt? u with
  | none => rfl
  | some p =>
    obtain ⟨rfl, hr⟩ := textReferenceAt?_eq_some_iff.mp hu
    rw [textReferenceAt?_eq_some_iff.mpr ⟨List.append_assoc p.1 p.2 v, hr⟩] at h
    cases h

theorem noTextReference_or_exists : ∀ cs : List Char, NoTextReference cs ∨ ∃ before reference after,
    cs = before ++ (reference ++ after) ∧ NoTextReference before ∧ IsTextReference reference
  | [] => .inl noTextReference_nil
  | c :: cs => by
    cases h : textReferenceAt? (c :: cs) with
    | some p =>
      obtain ⟨heq, hr⟩ := textReferenceAt?_eq_some_iff.mp h
      exact .inr ⟨[], p.1, p.2, heq, noTextReference_nil, hr⟩
    | none =>
      obtain hcs | ⟨before, reference, after, rfl, hbefore, hr⟩ := noTextReference_or_exists cs
      · exact .inl (noTextReference_cons_iff.mpr ⟨h, hcs⟩)
      · have hfront := @textReferenceAt?_eq_none_of_append (c :: before) (reference ++ after) h
        exact .inr ⟨c :: before, reference, after, rfl, noTextReference_cons_iff.mpr ⟨hfront, hbefore⟩, hr⟩

/-- Text is encoded as a whole up to the first reference, which is kept, and from there on in the same way. -/
theorem encodeOverlayText_step (cs : List Char) : NoTextReference cs ∧ encodeOverlayText cs = encodeStretch cs ∨
    ∃ before reference after, cs = before ++ (reference ++ after) ∧ NoTextReference before ∧
      IsTextReference reference ∧
      encodeOverlayText cs = encodeStretch before ++ (reference ++ encodeOverlayText after) := by
  obtain h | ⟨before, reference, after, rfl, hbefore, hr⟩ := noTextReference_or_exists cs
  · exact .inl ⟨h, encodeOverlayText_of_noTextReference h⟩
  · refine .inr ⟨before, reference, after, rfl, hbefore, hr, ?_⟩
    rw [encodeOverlayText_append_reference before hr, encodeOverlayText_of_noTextReference hbefore]

end DeliveryPath
