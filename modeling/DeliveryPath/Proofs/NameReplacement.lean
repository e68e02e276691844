import Mathlib.Data.List.Forall2
import DeliveryPath.Proofs.CodedText

/-!
# Names between references

A name right after a dollar sign stays when a text is abbreviated. But names are not found there: of the text between
references, a dollar sign can only be the last character, or the last before an underscore (`DollarAtEnd`). So
whatever is found in it, operator or name, is replaced (`names_replaced`).
-/

namespace DeliveryPath

/-! ## Dollar signs in a stretch -/

/-- There is at most one dollar sign, and nothing but an underscore after it. -/
def DollarAtEnd (cs : List Char) : Prop := '$' ∉ cs ∨ ∃ u, '$' ∉ u ∧ (cs = u ++ ['$'] ∨ cs = u ++ ['$', '_'])

theorem DollarAtEnd.cons {c : Char} {cs : List Char} (h : DollarAtEnd cs) (hc : c ≠ '$') : DollarAtEnd (c :: cs) := by
  obtain hcs | ⟨u, hu, hcs⟩ := h
  · exact .inl (by simp [Ne.symm hc, hcs])
  · refine .inr ⟨c :: u, by simp [Ne.symm hc, hu], ?_⟩
    obtain rfl | rfl := hcs
    · exact .inl rfl
    · exact .inr rfl

theorem SingleUnderscores.eq_nil_or_singleton {cs : List Char} (h : SingleUnderscores cs) (hall : ∀ c ∈ cs, c = '_') :
    cs = [] ∨ cs = ['_'] := by
  cases cs with
  | nil => exact .inl rfl
  | cons c cs =>
    rw [List.forall_mem_cons] at hall
    cases cs with
    | nil => exact .inr (by rw [hall.1])
    | cons d cs =>
      have hne := (List.isChain_cons_cons.mp h).1 hall.1
      exact absurd (hall.2 d (List.mem_cons_self ..)) hne

theorem NoReference.dollarAtEnd : ∀ {cs : List Char}, NoReference cs → SingleUnderscores cs → DollarAtEnd cs
  | [], _, _ => .inl List.not_mem_nil
  | c :: cs, hn, hs => by
    by_cases hc : c = '$'
    · have hrest : cs = [] ∨ cs = ['_'] := SingleUnderscores.eq_nil_or_singleton hs.tail (hn.1 hc)
      refine .inr ⟨[], List.not_mem_nil, ?_⟩
      rw [hc]
      apply hrest.imp
      · intro hnil; rw [hnil]; rfl
      · intro hone; rw [hone]; rfl
    · exact (NoReference.dollarAtEnd hn.2 hs.tail).cons hc

/-- A dollar sign before a name would begin a reference. -/
theorem NoReference.getLast?_ne_dollar {q : Quantity} {before after : List Char}
    (h : NoReference (before ++ (q.name.toList ++ after))) : before.getLast? ≠ some '$' := by
  intro hlast
  obtain ⟨u, rfl⟩ := List.getLast?_eq_some_iff.mp hlast
  rw [List.append_assoc] at h
  have hunderscores := h.of_append.1 rfl
  have hfalse : true = false := q.not_afterDollar fun _ => hunderscores
  cases hfalse

/-! ## What is replaced -/

/-- What is met at each place decides what it is replaced by. -/
theorem Replaces.unique {cs out out' : List Char} (h : Replaces cs out) (h' : Replaces cs out') : out = out' := by
  have hoperator : operatorAt? [] = none := by decide
  have hquantity : quantityAt? [] = none := by decide
  induction h generalizing out' with
  | nil =>
    cases h' with
    | nil => rfl
    | operator ho _ => rw [hoperator] at ho; cases ho
    | quantity _ hq _ => rw [hquantity] at hq; cases hq
  | operator ho _ ih =>
    cases h' with
    | nil => rw [hoperator] at ho; cases ho
    | operator ho' hrest => rw [ho] at ho'; cases ho'; rw [ih hrest]
    | quantity ho' _ _ => rw [ho] at ho'; cases ho'
    | keep ho' _ _ => rw [ho] at ho'; cases ho'
  | quantity ho hq _ ih =>
    cases h' with
    | nil => rw [hquantity] at hq; cases hq
    | operator ho' _ => rw [ho] at ho'; cases ho'
    | quantity _ hq' hrest => rw [hq] at hq'; cases hq'; rw [ih hrest]
    | keep _ hq' _ => rw [hq] at hq'; cases hq'
  | keep ho hq _ ih =>
    cases h' with
    | operator ho' _ => rw [ho] at ho'; cases ho'
    | quantity _ hq' _ => rw [hq] at hq'; cases hq'
    | keep _ _ hrest => rw [ih hrest]

theorem replaces_iff {cs out : List Char} (h : NoReference cs) : Replaces cs out ↔ abbreviate false cs = out := by
  constructor
  · intro hout
    exact (replaces_text h).unique hout
  · intro hout
    rw [← hout]
    exact replaces_text h

/-- What the compact form has for a piece of a text. -/
inductive Piece.Rewritten : Piece → List Char → Prop
  | text {x out : List Char} : Replaces x out → Rewritten (.text x) out
  | reference {r : List Char} : Rewritten (.reference r) r

theorem Partition.rewritten_compact {cs : List Char} {ps : List Piece} (h : Partition cs ps) :
    ∀ p ∈ ps, p.Rewritten p.compact := by
  intro p hp
  cases p with
  | text x => exact .text (replaces_text (h.noReference_of_text hp))
  | reference r => exact .reference

/-- In the text between the references there is a dollar sign only at the end, so none before a name, and abbreviating
such text replaces all that is met in it. The compact form consists of the references and of texts replaced so. -/
theorem names_replaced (s : String) :
    (∀ x, .text x ∈ pieces (collapse s.toList) → DollarAtEnd x ∧
      (∀ (q : Quantity) (before after : List Char), x = before ++ (q.name.toList ++ after) →
        before.getLast? ≠ some '$') ∧
      ∀ out, Replaces x out ↔ abbreviate false x = out) ∧
    ∃ outs, List.Forall₂ Piece.Rewritten (pieces (collapse s.toList)) outs ∧ (normalize s).toList = outs.flatten := by
  have hp := partition_pieces (collapse s.toList)
  constructor
  · intro x hx
    have hn : NoReference x := hp.noReference_of_text hx
    have hs : SingleUnderscores x := List.IsChain.infix (singleUnderscores_collapse s.toList) (hp.infix_of_text hx)
    refine ⟨hn.dollarAtEnd hs, ?_, fun out => replaces_iff hn⟩
    intro q before after heq
    rw [heq] at hn
    exact hn.getLast?_ne_dollar
  · refine ⟨(pieces (collapse s.toList)).map Piece.compact, ?_, toList_normalize s⟩
    rw [List.forall₂_map_right_iff, List.forall₂_same]
    exact hp.rewritten_compact

/-- A dollar sign is left in front of the last underscore. -/
theorem names_replaced_dollar : .text "width_/_$_".toList ∈ pieces (collapse "width / $ _".toList) ∧
    DollarAtEnd "width_/_$_".toList ∧ Replaces "width_/_$_".toList "w_div_$_".toList ∧
    (normalize "width / $ _").toList = "w_div_$_".toList := by
  have hcollapsed : collapse "width / $ _".toList = "width_/_$_".toList := by decide
  have hn : NoReference "width_/_$_".toList := by simp [NoReference]
  have hpieces := pieces_of_noReference (by decide) hn
  have hmem : .text "width_/_$_".toList ∈ pieces (collapse "width / $ _".toList) := by
    rw [hcollapsed, hpieces]
    exact List.mem_singleton_self _
  have hcompact : abbreviate false "width_/_$_".toList = "w_div_$_".toList := by decide +kernel
  obtain ⟨hdollar, -, hreplaces⟩ := (names_replaced "width / $ _").1 _ hmem
  exact ⟨hmem, hdollar, (hreplaces _).mpr hcompact, by decide +kernel⟩

end DeliveryPath
