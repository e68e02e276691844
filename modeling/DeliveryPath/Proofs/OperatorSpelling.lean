import Mathlib.Data.List.DropRight
import DeliveryPath.Expression.Basic
import DeliveryPath.Proofs.Tokens

/-!
# Operators by symbol and by word

A text becomes compact in two parts, cut after an underscore, if neither a reference nor a name runs across it
(`Finished.translate_append`). No name goes on with a symbol or with the word of an operator. So an operator may
be written either way, whatever the tokens around it are (`serialize_operator`); only a dollar sign right before it
would make it the name of a variable.
-/

namespace DeliveryPath

/-! ## Names across an underscore -/

/-- The words that come after an underscore in names of quantities. -/
def innerWords : List String :=
  ["width", "height", "aspect", "ratio", "count", "page", "x", "y", "duration", "score"]

theorem Quantity.exists_innerWord {q : Quantity} {u v : List Char} (h : q.name.toList = u ++ '_' :: v) :
    ∃ word ∈ innerWords, word.toList <+: v := by
  have hall : ∀ q ∈ all, ∀ t ∈ q.name.toList.tails, t.head? = some '_' →
      ∃ word ∈ innerWords, word.toList <+: t.tail := by decide
  exact hall q q.mem_all ('_' :: v) ((List.mem_tails _ _).mpr (h ▸ List.suffix_append u _)) rfl

/-- No name that began before goes on with the text. -/
def ContinuesNoName (cs : List Char) : Prop := ∀ word ∈ innerWords, ¬word.toList <+: cs

theorem continuesNoName_symbol (o : Operator) (rest : List Char) : ContinuesNoName (o.symbol.toList ++ rest) := by
  have hletter : ∀ word ∈ innerWords, word.toList.head?.any Char.isLower = true := by decide
  intro word hw hpre
  obtain ⟨c, hc, hlower⟩ := (Option.any_eq_true _ _).mp (hletter word hw)
  obtain ⟨letters, hword⟩ := List.head?_eq_some_iff.mp hc
  obtain ⟨a, symbol, hs⟩ := List.exists_cons_of_ne_nil o.symbol_spec.1
  rw [hword, hs, List.cons_append, List.cons_prefix_cons] at hpre
  exact ne_of_isLower hlower (o.symbol_spec.2 a (hs ▸ List.mem_cons_self ..)).1 hpre.1

theorem continuesNoName_code (o : Operator) (rest : List Char) :
    ContinuesNoName (o.code.toList ++ '_' :: rest) := by
  have hunderscore : ∀ word ∈ innerWords, '_' ∉ word.toList := by decide
  have hcode : ∀ word ∈ innerWords, ∀ o ∈ Operator.all, ¬word.toList <+: o.code.toList := by decide
  rintro word hw ⟨tail, hpre⟩
  rcases List.append_eq_append_iff.mp hpre with ⟨w, hcode', -⟩ | ⟨w, hword, hw'⟩
  · exact hcode word hw o o.mem_all ⟨w, hcode'.symm⟩
  · cases w with
    | nil => exact hcode word hw o o.mem_all ⟨[], by simpa using hword⟩
    | cons c w =>
      cases hw'
      refine hunderscore word hw ?_
      rw [hword]
      simp

/-! ## Two parts of a text -/

theorem IsReference.ne_nil {r : List Char} (h : IsReference r) : r ≠ [] := by
  obtain ⟨lead, name, rfl, -⟩ := h
  exact List.cons_ne_nil _ _

/-- A text after which reading begins anew, unless it is in the middle of a name: it is empty or ends in an
underscore, and its references end in it. -/
structure Finished (cs : List Char) : Prop where
  last : ∀ c ∈ cs.getLast?, c = '_'
  space : ' ' ∉ cs
  reference (rest : List Char) : '$' :: rest <:+ cs → ∃ c ∈ rest, c ≠ '_'

namespace Finished
variable {u v w : List Char}

theorem of_suffix (h : Finished u) (hs : w <:+ u) : Finished w where
  last c hc := by
    obtain ⟨t, rfl⟩ := hs
    exact h.last c (by rw [List.getLast?_append, hc]; rfl)
  space hm := h.space (hs.subset hm)
  reference rest hr := h.reference rest (hr.trans hs)

theorem of_append (h : Finished (w ++ u)) : Finished u := h.of_suffix (List.suffix_append w u)

theorem exists_concat (h : Finished u) (hne : u ≠ []) : ∃ w, u = w ++ ['_'] := by
  obtain ⟨w, c, rfl⟩ := List.eq_nil_or_concat' u |>.resolve_left hne
  obtain rfl := h.last c (by simp)
  exact ⟨w, rfl⟩

/-- A reference that begins in the text ends there, before an underscore. -/
theorem exists_reference (h : Finished ('$' :: u)) :
    ∃ r rest, '$' :: u = r ++ rest ∧ IsReference r ∧ rest.head? = some '_' := by
  cases hfound : referenceAt? ('$' :: u) with
  | none =>
    obtain ⟨d, hd, hne⟩ := h.reference u (List.suffix_refl _)
    exact absurd (referenceAt?_cons_eq_none_iff.mp hfound rfl d hd) hne
  | some found =>
    obtain ⟨r, rest⟩ := found
    obtain ⟨heq, hr, hrest⟩ := referenceAt?_eq_some_iff.mp hfound
    refine ⟨r, rest, heq, hr, ?_⟩
    cases rest with
    | nil =>
      obtain ⟨w, hw⟩ := h.exists_concat (List.cons_ne_nil _ _)
      rw [List.append_nil] at heq
      exact absurd rfl (hr.getLast?_ne '_' (by rw [← heq, hw]; simp))
    | cons c rest => rw [hrest c rfl]; rfl

/-- A symbol with its underscore does not run across the end. -/
theorem exists_of_operatorAt? (h : Finished u) (hne : u ≠ []) {o : Operator} {c : Char} {rest : List Char}
    (ho : operatorAt? (u ++ v) = some (o, c, rest)) : ∃ w, u = o.symbol.toList ++ '_' :: w := by
  have hsymbol : '_' ∉ o.symbol.toList := fun hm => absurd (o.symbol_spec.2 '_' hm).2.1 (by decide)
  obtain ⟨heq, hc⟩ := append_of_operatorAt? ho
  obtain ⟨x, hx⟩ := h.exists_concat hne
  rcases List.append_eq_append_iff.mp heq with ⟨w, hs, -⟩ | ⟨w, hu, hw⟩
  · refine absurd ?_ hsymbol
    rw [hs, hx]
    simp
  · cases w with
    | nil =>
      refine absurd ?_ hsymbol
      rw [← List.append_nil o.symbol.toList, ← hu, hx]
      simp
    | cons d w =>
      cases hw
      have hd : c = '_' := by
        refine eq_underscore_of_isSeparator hc fun hspace => h.space ?_
        rw [hu, hspace]
        simp
      exact ⟨w, by rw [hu, hd]⟩

/-- A name does not run across the end. -/
theorem exists_of_quantityAt? (h : Finished u) (hne : u ≠ []) (hv : ContinuesNoName v) {q : Quantity}
    {rest : List Char} (hq : quantityAt? (u ++ v) = some (q, rest)) : ∃ w, u = q.name.toList ++ w := by
  rcases List.append_eq_append_iff.mp (append_of_quantityAt? hq) with ⟨w, hname, hw⟩ | ⟨w, hu, -⟩
  · obtain ⟨x, hx⟩ := h.exists_concat hne
    rw [hx, List.append_assoc, List.singleton_append] at hname
    obtain ⟨word, hword, hpre⟩ := q.exists_innerWord hname
    exact absurd (hpre.trans ⟨rest, hw.symm⟩) (hv word hword)
  · exact ⟨w, hu⟩

/-- What is read first from a text that is finished does not depend on what comes after the text. -/
theorem exists_step (h : Finished u) (hne : u ≠ []) (hv : ContinuesNoName v) : ∃ front w out, u = front ++ w ∧
    front ≠ [] ∧ translate (u ++ v) = out ++ translate (w ++ v) ∧ translate u = out ++ translate w := by
  obtain ⟨c, tail, rfl⟩ := List.exists_cons_of_ne_nil hne
  by_cases hc : c = '$'
  · subst hc
    obtain ⟨r, rest, heq, hr, hrest⟩ := h.exists_reference
    have hhead : ∀ {x : List Char}, x.head? = some '_' → translate (r ++ x) = r ++ translate x := by
      intro x hx
      exact translate_reference hr fun d hd => by rw [hx] at hd; cases hd; rfl
    rw [heq, List.append_assoc]
    exact ⟨r, rest, r, rfl, hr.ne_nil, hhead (by rw [List.head?_append, hrest]; rfl), hhead hrest⟩
  cases ho : operatorAt? (c :: tail ++ v) with
  | some found =>
    obtain ⟨o, d, rest⟩ := found
    obtain ⟨w, hw⟩ := h.exists_of_operatorAt? hne ho
    refine ⟨o.symbol.toList ++ ['_'], w, o.code.toList ++ ['_'], by simp [hw], by simp, ?_, ?_⟩
    · rw [hw, List.append_assoc, List.cons_append, translate_operator]; simp
    · rw [hw, translate_operator]; simp
  | none =>
    cases hq : quantityAt? (c :: tail ++ v) with
    | some found =>
      obtain ⟨q, rest⟩ := found
      obtain ⟨w, hw⟩ := h.exists_of_quantityAt? hne hv hq
      refine ⟨q.name.toList, w, q.code.toList, hw, by cases q <;> decide, ?_, ?_⟩
      · rw [hw, List.append_assoc, translate_quantity]
      · rw [hw, translate_quantity]
    | none =>
      obtain ⟨ho', hq'⟩ := nothing_at_shorter (List.prefix_append _ v) ho hq
      exact ⟨[c], tail, [c], rfl, by simp, translate_cons hc ho hq, translate_cons hc ho' hq'⟩

theorem translate_append (h : Finished u) (hv : ContinuesNoName v) :
    translate (u ++ v) = translate u ++ translate v := by
  induction hn : u.length using Nat.strong_induction_on generalizing u with
  | _ n ih =>
    by_cases hne : u = []
    · rw [hne, translate_nil]; rfl
    obtain ⟨front, w, out, rfl, hfront, hstep, hstep'⟩ := h.exists_step hne hv
    have hlt : w.length < n := by
      have := List.length_pos_iff.mpr hfront
      simp only [List.length_append] at hn
      omega
    rw [hstep, hstep', ih w.length hlt h.of_append rfl, List.append_assoc]

end Finished

theorem finished_nil : Finished [] where
  last c hc := by cases hc
  space := List.not_mem_nil
  reference rest hr := by simp at hr

theorem finished_underscore : Finished ['_'] where
  last c hc := by simpa using hc.symm
  space := by decide
  reference rest hr := absurd (hr.subset (List.mem_cons_self ..)) (by decide)

/-! ## Collapsing around a token -/

theorem collapse_append_cons {c : Char} (hc : isSeparator c = false) (v : List Char) : ∀ u : List Char,
    collapse (u ++ c :: v) = collapse u ++ c :: collapse v
  | [] => collapse_cons_of_not_isSeparator hc v
  | d :: u => by
    have ih := collapse_append_cons hc v u
    have hhead : (u ++ c :: v).head?.any isSeparator = u.head?.any isSeparator := by
      cases u with
      | nil => exact hc
      | cons e u => rfl
    rw [List.cons_append, collapse, collapse, hhead, ih]
    split
    · split <;> simp
    · simp

theorem collapse_underscore (cs : List Char) : collapse ('_' :: cs) = '_' :: collapse (cs.dropWhile isSeparator) := by
  have hgap : ∀ c ∈ '_' :: cs.takeWhile isSeparator, isSeparator c = true := by
    rw [List.forall_mem_cons]
    exact ⟨rfl, fun c hc => List.all_eq_true.mp List.all_takeWhile c hc⟩
  have hrest : (cs.dropWhile isSeparator).head?.any isSeparator = false := by
    have hhead := List.head?_dropWhile_not isSeparator cs
    cases h : (cs.dropWhile isSeparator).head? with
    | none => rfl
    | some c => rw [h] at hhead; simpa using hhead
  rw [← collapse_gap (List.cons_ne_nil _ _) hgap hrest, List.cons_append, List.takeWhile_append_dropWhile]

theorem finished_concat {c : Char} {cs : List Char} (hs : ' ' ∉ cs) (hc : isSeparator c = false) (hd : c ≠ '$') :
    Finished (cs ++ [c, '_']) where
  last d hl := by simpa using hl.symm
  space hm := by
    simp only [List.mem_append, List.mem_cons, List.not_mem_nil, or_false] at hm
    rcases hm with hm | rfl | hm
    · exact hs hm
    · exact absurd hc (by decide)
    · exact absurd hm (by decide)
  reference rest := by
    rintro ⟨t, ht⟩
    -- what follows a dollar sign takes in the character before the underscore
    rcases List.append_eq_append_iff.mp ht with ⟨w, -, hw⟩ | ⟨w, -, hw⟩
    · cases w with
      | nil => exact absurd (List.cons.inj hw).1.symm hd
      | cons d w =>
        obtain ⟨-, rfl⟩ := List.cons.inj hw
        exact ⟨c, by simp, by rintro rfl; exact absurd hc (by decide)⟩
    · match w, hw with
      | [], hw => exact absurd (List.cons.inj hw).1 hd
      | [d], hw => exact absurd (List.cons.inj (List.cons.inj hw).2).1 (by decide)
      | _ :: _ :: w, hw => simp at hw

/-- Before a token, a text is finished unless its last character, separators apart, is a dollar sign. -/
theorem exists_collapse_append {cs : List Char} (h : (cs.rdropWhile isSeparator).getLast? ≠ some '$') :
    ∃ u, Finished u ∧ ∀ v : List Char, v.head?.any isSeparator = false →
      collapse (cs ++ '_' :: v) = u ++ collapse v := by
  have hgap : ∀ v : List Char, v.head?.any isSeparator = false →
      collapse (cs.rtakeWhile isSeparator ++ '_' :: v) = '_' :: collapse v := by
    intro v hv
    have hall : ∀ c ∈ cs.rtakeWhile isSeparator ++ ['_'], isSeparator c = true := by
      rw [List.forall_mem_append, List.forall_mem_singleton]
      exact ⟨fun c hc => List.mem_rtakeWhile_imp hc, rfl⟩
    rw [← collapse_gap (by simp) hall hv, List.append_assoc, List.singleton_append]
  have hsplit := List.rdropWhile_append_rtakeWhile (p := isSeparator) (l := cs)
  rcases List.eq_nil_or_concat' (cs.rdropWhile isSeparator) with hnil | ⟨w, c, hw⟩
  · refine ⟨['_'], finished_underscore, fun v hv => ?_⟩
    rw [hnil, List.nil_append] at hsplit
    rw [← hsplit, hgap v hv]
    rfl
  · have hc : isSeparator c = false := by
      have hlast := List.rdropWhile_last_not isSeparator cs (by rw [hw]; simp)
      simpa [hw] using hlast
    have hd : c ≠ '$' := by
      rintro rfl
      exact h (by rw [hw]; simp)
    refine ⟨collapse w ++ [c, '_'], finished_concat (space_not_mem_collapse w) hc hd, fun v hv => ?_⟩
    rw [← hsplit, hw, List.append_assoc, List.append_assoc, List.singleton_append, collapse_append_cons hc, hgap v hv]
    simp

/-! ## Expressions -/

namespace Expression

theorem toList_intercalate_cons (token : String) {after : List String} (hne : after ≠ []) :
    ("_".intercalate (token :: after)).toList = token.toList ++ '_' :: ("_".intercalate after).toList := by
  have h := String.intercalate_append_of_ne_nil (s := "_") (List.cons_ne_nil token []) hne
  rw [List.singleton_append, String.intercalate_singleton] at h
  rw [h, String.toList_append, String.toList_append, List.append_assoc]
  rfl

/-- A token among others, after collapsing. -/
theorem exists_collapse_intercalate {before after : List String} (hne : after ≠ [])
    (h : (("_".intercalate before).toList.rdropWhile isSeparator).getLast? ≠ some '$') : ∃ u w, Finished u ∧
      ∀ token : String, token.toList ≠ [] → (∀ c ∈ token.toList, isSeparator c = false) →
        collapse ("_".intercalate (before ++ token :: after)).toList = u ++ (token.toList ++ '_' :: w) := by
  obtain ⟨w, htail⟩ : ∃ w, ∀ token : String, (∀ c ∈ token.toList, isSeparator c = false) →
      collapse ("_".intercalate (token :: after)).toList = token.toList ++ '_' :: w := by
    refine ⟨collapse (("_".intercalate after).toList.dropWhile isSeparator), fun token hsep => ?_⟩
    rw [toList_intercalate_cons token hne, collapse_append_of_no_separator _ hsep, collapse_underscore]
  by_cases hb : before = []
  · subst hb
    exact ⟨[], w, finished_nil, fun token _ hsep => htail token hsep⟩
  · obtain ⟨u, hu, hcollapse⟩ := exists_collapse_append h
    refine ⟨u, w, hu, fun token hchars hsep => ?_⟩
    have hhead : ("_".intercalate (token :: after)).toList.head?.any isSeparator = false := by
      obtain ⟨c, cs, hc⟩ := List.exists_cons_of_ne_nil hchars
      rw [toList_intercalate_cons token hne, hc]
      exact hsep c (hc ▸ List.mem_cons_self ..)
    rw [String.intercalate_append_of_ne_nil hb (List.cons_ne_nil token after), String.toList_append,
      String.toList_append, List.append_assoc, ← htail token hsep, ← hcollapse _ hhead]
    rfl

theorem foldl_push (tokens : List String) (e : Expression) : tokens.foldl push e = ⟨e.tokens ++ tokens⟩ := by
  induction tokens generalizing e with
  | nil => rw [List.append_nil]; rfl
  | cons token tokens ih => rw [List.foldl_cons, ih, push, List.append_assoc]; rfl

/-- An operator may be written by its symbol or by its word, which is what a builder appends, whatever tokens stand
around it. After a dollar sign the symbol would be the name of a user variable. -/
theorem serialize_operator (o : Operator) {before after : List String} (hne : after ≠ [])
    (h : (("_".intercalate before).toList.rdropWhile isSeparator).getLast? ≠ some '$') :
    serialize ⟨before ++ [o.code] ++ after⟩ = serialize ⟨before ++ [o.symbol] ++ after⟩ ∧
      after.foldl push (operator ⟨before⟩ o) = ⟨before ++ [o.code] ++ after⟩ := by
  refine ⟨?_, foldl_push after _⟩
  obtain ⟨u, w, hu, hcollapse⟩ := exists_collapse_intercalate hne h
  have hplain := o.plain_code
  have hsymbol := hcollapse o.symbol o.symbol_spec.1 fun c hc => (o.symbol_spec.2 c hc).2.1
  have hcode := hcollapse o.code o.code_spec.1 hplain.separator
  rw [serialize, serialize, ← String.toList_inj, toList_normalize, toList_normalize, compact_eq, compact_eq,
    List.append_assoc, List.append_assoc, List.singleton_append, List.singleton_append, hsymbol, hcode,
    hu.translate_append (continuesNoName_code o w), hu.translate_append (continuesNoName_symbol o _),
    hplain.translate_append (by simp), translate_underscore, translate_operator]

theorem serialize_operator_initial : ["_aspect"] ≠ [] ∧
    (("_".intercalate ["$size *", "initial "]).toList.rdropWhile isSeparator).getLast? ≠ some '$' ∧
    serialize ⟨["$size *", "initial ", "/", "_aspect"]⟩ = "$size_mul_initial_div_aspect" ∧
    serialize ⟨["$size *", "initial ", "div", "_aspect"]⟩ = serialize ⟨["$size *", "initial ", "/", "_aspect"]⟩ := by
  have hne : ["_aspect"] ≠ [] := List.cons_ne_nil _ _
  have h : (("_".intercalate ["$size *", "initial "]).toList.rdropWhile isSeparator).getLast? ≠ some '$' := by
    decide
  exact ⟨hne, h, by decide +kernel, (serialize_operator .div hne h).1⟩

example : serialize ⟨["$", "<", "2"]⟩ = "$_<_2" ∧ serialize ⟨["$", "lt", "2"]⟩ = "$_lt_2" := by decide +kernel

end Expression

end DeliveryPath
