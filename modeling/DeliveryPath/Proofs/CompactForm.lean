import DeliveryPath.Proofs.Abbreviation

/-!
# The compact form

A text in compact form has no blanks and no two underscores side by side. Its references are those of the text
with collapsed separators, since the stretches between them are abbreviated each by itself and keep the
underscores at their ends. An operator symbol is left before an underscore within a reference only.
-/

namespace DeliveryPath

/-! ## Collapsed separators -/

theorem collapse_cons_of_not_isSeparator {c : Char} (h : isSeparator c = false) (cs : List Char) :
    collapse (c :: cs) = c :: collapse cs := by
  rw [collapse, h, if_neg Bool.false_ne_true]

theorem eq_underscore_of_isSeparator {c : Char} (h : isSeparator c = true) (hs : c ≠ ' ') : c = '_' := by
  simp only [isSeparator, Bool.or_eq_true, beq_iff_eq] at h
  exact h.resolve_left hs

theorem space_not_mem_collapse : ∀ cs : List Char, ' ' ∉ collapse cs
  | [] => by simp [collapse]
  | c :: cs => by
    have ih := space_not_mem_collapse cs
    by_cases hc : isSeparator c = true
    · rw [collapse, if_pos hc]
      split
      · exact ih
      · rw [List.mem_cons, not_or]
        exact ⟨by decide, ih⟩
    · rw [Bool.not_eq_true] at hc
      rw [collapse_cons_of_not_isSeparator hc, List.mem_cons, not_or]
      refine ⟨?_, ih⟩
      rintro rfl
      exact absurd hc (by decide)

theorem isSeparator_of_head?_collapse {cs : List Char} (h : (collapse cs).head? = some '_') :
    cs.head?.any isSeparator = true := by
  cases cs with
  | nil => cases h
  | cons c cs =>
    by_cases hc : isSeparator c = true
    · exact hc
    · rw [Bool.not_eq_true] at hc
      rw [collapse_cons_of_not_isSeparator hc] at h
      cases h
      exact absurd hc (by decide)

theorem singleUnderscores_collapse : ∀ cs : List Char, SingleUnderscores (collapse cs)
  | [] => List.isChain_nil
  | c :: cs => by
    have ih := singleUnderscores_collapse cs
    by_cases hc : isSeparator c = true
    · rw [collapse, if_pos hc]
      split
      · exact ih
      · next hn =>
        refine ih.cons ?_
        rintro d hd - rfl
        exact hn (isSeparator_of_head?_collapse hd)
    · rw [Bool.not_eq_true] at hc
      rw [collapse_cons_of_not_isSeparator hc]
      refine ih.cons ?_
      rintro d - rfl
      exact absurd hc (by decide)

/-! ## Pieces of the compact form -/

theorem IsReference.head? {r : List Char} (h : IsReference r) (rest : List Char) : (r ++ rest).head? = some '$' := by
  obtain ⟨lead, name, rfl, -⟩ := h
  rfl

theorem IsReference.getLast?_ne {r : List Char} (h : IsReference r) : ∀ c ∈ r.getLast?, c ≠ '_' := by
  obtain ⟨lead, name, rfl, -, hne, hname⟩ := h
  intro c hc he
  rw [← List.cons_append, List.getLast?_append_of_ne_nil _ hne] at hc
  exact hname (he ▸ List.mem_of_getLast? hc)

def Piece.abbreviated : Piece → Piece
  | .text chars => .text (abbreviate false chars)
  | .reference chars => .reference chars

namespace Partition
variable {cs : List Char} {ps : List Piece}

theorem head?_of_reference {r : List Char} (h : Partition cs (.reference r :: ps)) : cs.head? = some '$' := by
  cases h with
  | reference hr _ _ => exact hr.head? _

theorem noReference_of_text (h : Partition cs ps) {x : List Char} (hx : .text x ∈ ps) : NoReference x := by
  induction h with
  | nil => cases hx
  | last _ hn =>
    rw [List.mem_singleton] at hx
    cases hx
    exact hn
  | reference _ _ _ ih =>
    rcases List.mem_cons.mp hx with hx | hx
    · cases hx
    · exact ih hx
  | text _ hd _ ih =>
    rcases List.mem_cons.mp hx with hx | hx
    · cases hx
      exact noReference_of_not_mem hd
    · exact ih hx

theorem head?_flatMap_compact (h : Partition cs ps) (hc : ∀ c ∈ cs.head?, c = '_') :
    ∀ c ∈ (ps.flatMap Piece.compact).head?, c = '_' := by
  have hsplit : ∀ {x : List Char} (v w : List Char), x ≠ [] → NoReference x →
      (∀ c ∈ (x ++ v).head?, c = '_') → ∀ c ∈ (abbreviate false x ++ w).head?, c = '_' := by
    intro x v w hne hn hx c hc
    obtain ⟨d, x, rfl⟩ := List.exists_cons_of_ne_nil hne
    have hd : d = '_' := hx d rfl
    have hhead := (abbreviates_text hn).head?_iff.mpr (by rw [hd]; rfl)
    rw [List.head?_append, hhead] at hc
    cases hc
    rfl
  cases h with
  | nil => exact hc
  | @last _ hne hn =>
    rw [List.flatMap_cons]
    refine hsplit [] _ hne hn ?_
    rw [List.append_nil]
    exact hc
  | @reference r rest _ hr _ _ =>
    exact absurd (hc '$' (hr.head? rest)) (by decide)
  | @text x cs _ _ hx hd _ =>
    rw [List.flatMap_cons]
    exact hsplit cs _ hx (noReference_of_not_mem hd) hc

/-- The compact form is parted where the text was. -/
theorem map_abbreviated (h : Partition cs ps) :
    Partition (ps.flatMap Piece.compact) (ps.map Piece.abbreviated) := by
  induction h with
  | nil => exact .nil
  | @last cs hne hn =>
    have ha := abbreviates_text hn
    rw [List.flatMap_singleton]
    exact .last (ha.ne_nil hne) (ha.noReference hn)
  | reference hr hrest hp ih =>
    rw [List.flatMap_cons]
    exact .reference hr (hp.head?_flatMap_compact hrest) ih
  | @text x cs r ps hx hd _ ih =>
    have ha := abbreviates_text (noReference_of_not_mem hd)
    rw [List.flatMap_cons]
    exact .text (ha.ne_nil hx) (ha.dollar_not_mem hd) ih

theorem singleUnderscores_flatMap_compact (h : Partition cs ps) (hs : SingleUnderscores cs) :
    SingleUnderscores (ps.flatMap Piece.compact) := by
  induction h with
  | nil => exact hs
  | last _ hn =>
    rw [List.flatMap_singleton]
    exact (abbreviates_text hn).singleUnderscores hs
  | reference hr _ _ ih =>
    rw [List.flatMap_cons]
    refine hs.left_of_append.append (ih hs.right_of_append) ?_
    intro c hc _ _ he
    exact absurd he (hr.getLast?_ne c hc)
  | @text x cs r ps _ hd hp ih =>
    rw [List.flatMap_cons]
    have ha := abbreviates_text (noReference_of_not_mem hd)
    refine (ha.singleUnderscores hs.left_of_append).append (ih hs.right_of_append) ?_
    intro _ _ d hdollar _
    have hhead := hp.map_abbreviated.head?_of_reference.symm.trans hdollar
    cases hhead
    decide

theorem space_not_mem_flatMap_compact (h : Partition cs ps) (hs : ' ' ∉ cs) : ' ' ∉ ps.flatMap Piece.compact := by
  intro hm
  obtain ⟨p, hp, hm⟩ := List.mem_flatMap.mp hm
  have hchars : ' ' ∈ p.chars := by
    cases p with
    | reference _ => exact hm
    | text x =>
      have ha := abbreviates_text (h.noReference_of_text hp)
      exact (ha.mem_or_isLower hm).resolve_right (by decide)
  rw [← h.flatMap_chars] at hs
  exact hs (List.mem_flatMap.mpr ⟨p, hp, hchars⟩)

/-- A symbol and an underscore begin a text that is cut somewhere: the cut comes after the symbol, or within it. -/
theorem symbol_append_cases {o : Operator} {u v after : List Char} (h : o.symbol.toList ++ '_' :: after = u ++ v) :
    (∃ w, u = o.symbol.toList ++ w ∧ '_' :: after = w ++ v) ∨ ∃ c ∈ o.symbol.toList, v.head? = some c := by
  rcases List.append_eq_append_iff.mp h with ⟨w, hu, hv⟩ | ⟨w, hs, hv⟩
  · exact .inl ⟨w, hu, hv⟩
  · cases w with
    | nil =>
      rw [List.append_nil] at hs
      exact .inl ⟨[], by rw [hs, List.append_nil], hv.symm⟩
    | cons c w =>
      refine .inr ⟨c, by rw [hs]; simp, ?_⟩
      rw [hv]; rfl

/-- Where no symbol stands before an underscore in a stretch, it does so in references only. -/
theorem exists_reference_of_symbol {o : Operator} {before after : List Char} (h : Partition cs ps)
    (hx : ∀ x, .text x ∈ ps → ¬o.symbol.toList ++ ['_'] <:+: x)
    (heq : cs = before ++ o.symbol.toList ++ '_' :: after) : ∃ earlier u v later,
      ps = earlier ++ .reference (u ++ o.symbol.toList ++ v) :: later ∧
      before = earlier.flatMap Piece.chars ++ u := by
  -- a symbol that begins in a piece ends there, for the next one begins with an underscore or a dollar sign
  induction h generalizing before with
  | nil => simp at heq
  | @last cs _ _ =>
    refine absurd ?_ (hx cs (List.mem_singleton_self _))
    exact ⟨before, after, by rw [heq]; simp⟩
  | @reference r rest ps hr hrest hp ih =>
    rw [List.append_assoc] at heq
    rcases List.append_eq_append_iff.mp heq with ⟨between, rfl, hbetween⟩ | ⟨inside, rfl, hinside⟩
    · rw [← List.append_assoc] at hbetween
      obtain ⟨earlier, u, v, later, rfl, rfl⟩ := ih (fun x hm => hx x (List.mem_cons_of_mem _ hm)) hbetween
      exact ⟨.reference r :: earlier, u, v, later, rfl, (List.append_assoc _ _ _).symm⟩
    · rcases symbol_append_cases hinside with ⟨w, rfl, -⟩ | ⟨c, hc, hhead⟩
      · exact ⟨[], before, w, ps, by rw [List.append_assoc]; rfl, rfl⟩
      · have hsep := (o.symbol_spec.2 c hc).2.1
        rw [hrest c hhead] at hsep
        exact absurd hsep (by decide)
  | @text x cs r ps hne hd hp ih =>
    rw [List.append_assoc] at heq
    rcases List.append_eq_append_iff.mp heq with ⟨between, rfl, hbetween⟩ | ⟨inside, rfl, hinside⟩
    · rw [← List.append_assoc] at hbetween
      obtain ⟨earlier, u, v, later, hps, rfl⟩ := ih (fun x hm => hx x (List.mem_cons_of_mem _ hm)) hbetween
      rw [hps]
      exact ⟨.text x :: earlier, u, v, later, rfl, (List.append_assoc _ _ _).symm⟩
    · rcases symbol_append_cases hinside with ⟨w, rfl, hw⟩ | ⟨c, hc, hhead⟩
      · cases w with
        | nil =>
          rw [List.nil_append] at hw
          have hdollar := hp.head?_of_reference
          rw [← hw] at hdollar
          cases hdollar
        | cons d w =>
          rw [List.cons_append, List.cons.injEq] at hw
          refine absurd ?_ (hx _ (List.mem_cons_self ..))
          exact ⟨before, w, by rw [← hw.1]; simp⟩
      · rw [hp.head?_of_reference] at hhead
        cases hhead
        exact absurd rfl (o.symbol_spec.2 '$' hc).2.2

end Partition

/-! ## Safety of the compact form -/

theorem toList_normalize (s : String) : (normalize s).toList = compact s.toList := String.toList_ofList

theorem partition_compact (cs : List Char) :
    Partition (compact cs) ((pieces (collapse cs)).map Piece.abbreviated) :=
  (partition_pieces (collapse cs)).map_abbreviated

theorem no_symbol_before_underscore_of_text {cs x : List Char}
    (h : .text x ∈ (pieces (collapse cs)).map Piece.abbreviated) (o : Operator) :
    ¬o.symbol.toList ++ ['_'] <:+: x := by
  obtain ⟨p, hp, heq⟩ := List.mem_map.mp h
  cases p with
  | reference r => cases heq
  | text y =>
    cases heq
    have hn := (partition_pieces (collapse cs)).noReference_of_text hp
    exact (abbreviates_text hn).no_symbol_before_underscore o

/-- The compact form has neither blanks nor underscores side by side. Its references are those of the text with
collapsed separators. Wherever an operator symbol stands before an underscore, the symbol is part of one. -/
theorem normalize_safe (s : String) :
    ' ' ∉ (normalize s).toList ∧
    ¬['_', '_'] <:+: (normalize s).toList ∧
    references (normalize s).toList = references (collapse s.toList) ∧
    ∀ (o : Operator) (before after : List Char),
      (normalize s).toList = before ++ o.symbol.toList ++ '_' :: after → ∃ earlier u v later,
        pieces (normalize s).toList = earlier ++ .reference (u ++ o.symbol.toList ++ v) :: later ∧
        before = earlier.flatMap Piece.chars ++ u := by
  have hp := partition_pieces (collapse s.toList)
  have hcompact := partition_compact s.toList
  rw [toList_normalize]
  refine ⟨hp.space_not_mem_flatMap_compact (space_not_mem_collapse _), ?_, ?_, ?_⟩
  · intro hin
    have hs := hp.singleUnderscores_flatMap_compact (singleUnderscores_collapse _)
    have hpair := List.IsChain.infix hs hin
    exact List.isChain_pair.mp hpair rfl rfl
  · unfold references
    rw [hcompact.eq_pieces, List.filterMap_map]
    refine List.filterMap_congr fun p _ => ?_
    cases p <;> rfl
  · intro o before after heq
    rw [hcompact.eq_pieces]
    exact hcompact.exists_reference_of_symbol (fun x hx => no_symbol_before_underscore_of_text hx o) heq

theorem normalize_safe_of_minus :
    (normalize "$- - 1").toList = ['$'] ++ Operator.sub.symbol.toList ++ "_sub_1".toList ∧
    ∃ earlier u v later, pieces (normalize "$- - 1").toList =
        earlier ++ .reference (u ++ Operator.sub.symbol.toList ++ v) :: later ∧
      ['$'] = earlier.flatMap Piece.chars ++ u := by
  have heq : (normalize "$- - 1").toList = ['$'] ++ Operator.sub.symbol.toList ++ "_sub_1".toList := by
    decide +kernel
  exact ⟨heq, (normalize_safe "$- - 1").2.2.2 .sub ['$'] "sub_1".toList heq⟩

end DeliveryPath
