import DeliveryPath.Proofs.CompactSteps

/-!
# Expressions as tokens

An expression written token by token, with blanks and underscores in between, becomes compact token by token, and
then stays as it is (`normalize_spelled`). Names of quantities hold underscores themselves, but each begins with a
word of its own (`nameWords`). So where the words of an expression keep clear of these, nothing is read across two
tokens.
-/

namespace DeliveryPath

/-! ## Plain words -/

/-- The words with which names of quantities begin. -/
def nameWords : List String :=
  ["width", "height", "initial", "aspect", "page", "face", "current", "tags", "duration", "illustration", "context"]

theorem underscore_not_mem_nameWords : ∀ word ∈ nameWords, '_' ∉ word.toList := by decide

theorem Quantity.exists_nameWord (q : Quantity) : ∃ word ∈ nameWords, word.toList <+: q.name.toList := by
  cases q <;> decide

/-- A word that means nothing by itself or before an underscore. -/
structure Plain (cs : List Char) : Prop where
  separator : ∀ c ∈ cs, isSeparator c = false
  dollar : '$' ∉ cs
  symbol (o : Operator) : ¬o.symbol.toList <:+ cs
  name : ∀ word ∈ nameWords, ¬word.toList <:+: cs

namespace Plain
variable {c : Char} {u rest : List Char}

theorem tail (h : Plain (c :: u)) : Plain u where
  separator d hd := h.separator d (List.mem_cons_of_mem c hd)
  dollar hd := h.dollar (List.mem_cons_of_mem c hd)
  symbol o ho := h.symbol o (ho.trans (List.suffix_cons c u))
  name word hw hin := h.name word hw (hin.trans (List.suffix_cons c u).isInfix)

theorem operatorAt?_eq_none (h : Plain u) (hrest : ∀ c ∈ rest.head?, c = '_') : operatorAt? (u ++ rest) = none := by
  rw [operatorAt?_eq_none_iff]
  intro o d tail hd heq
  cases rest with
  | nil =>
    rw [List.append_nil] at heq
    have hsep := h.separator d (by rw [heq]; simp)
    rw [hd] at hsep
    cases hsep
  | cons e rest =>
    rw [hrest e rfl] at heq
    have hsymbol := (eq_of_append_separator h.separator (fun c hc => (o.symbol_spec.2 c hc).2.1) (by decide) hd heq).1
    exact h.symbol o (hsymbol ▸ List.suffix_refl _)

theorem quantityAt?_eq_none (h : Plain u) (hrest : ∀ c ∈ rest.head?, c = '_') : quantityAt? (u ++ rest) = none := by
  rw [quantityAt?_eq_none_iff]
  intro q tail heq
  obtain ⟨word, hw, name, hname⟩ := q.exists_nameWord
  rw [← hname, List.append_assoc] at heq
  rcases List.append_eq_append_iff.mp heq with ⟨w, hword, hw'⟩ | ⟨w, rfl, -⟩
  · cases w with
    | nil =>
      rw [List.append_nil] at hword
      exact h.name word hw (hword ▸ List.infix_refl _)
    | cons d w =>
      have hd : d = '_' := hrest d (by rw [hw']; rfl)
      refine absurd ?_ (underscore_not_mem_nameWords word hw)
      rw [hword, hd]
      simp
  · exact h.name word hw (List.prefix_append _ _).isInfix

theorem translate_append (h : Plain u) (hrest : ∀ c ∈ rest.head?, c = '_') :
    translate (u ++ rest) = u ++ translate rest := by
  induction u with
  | nil => rfl
  | cons c u ih =>
    have hc : c ≠ '$' := fun hc => h.dollar (hc ▸ List.mem_cons_self ..)
    have hstep := translate_cons hc (h.operatorAt?_eq_none hrest) (h.quantityAt?_eq_none hrest)
    have htail := ih h.tail
    rw [List.cons_append, List.cons_append, ← htail]
    exact hstep

theorem compact_eq_self (h : Plain u) : compact u = u := by
  have hcollapse : collapse u = u := by
    have hall := collapse_append_of_no_separator [] h.separator
    rwa [collapse, List.append_nil] at hall
  have htranslate : translate (u ++ []) = u ++ translate [] := h.translate_append (by simp)
  rw [List.append_nil, translate_nil, List.append_nil] at htranslate
  rw [compact_eq, hcollapse, htranslate]

end Plain

theorem plain_of_isLower {cs : List Char} (h : ∀ c ∈ cs, c.isLower = true)
    (hname : ∀ word ∈ nameWords, ¬word.toList <:+: cs) : Plain cs where
  separator c hc := by
    cases hsep : isSeparator c with
    | false => rfl
    | true =>
      have hlower := h c hc
      simp only [isSeparator, Bool.or_eq_true, beq_iff_eq] at hsep
      rcases hsep with rfl | rfl <;> exact absurd hlower (by decide)
  dollar := not_mem_of_isLower h (by decide)
  symbol o ho := by
    obtain ⟨c, hc⟩ := List.exists_mem_of_ne_nil _ o.symbol_spec.1
    exact absurd rfl (ne_of_isLower (h c (ho.subset hc)) (o.symbol_spec.2 c hc).1)
  name := hname

theorem Operator.plain_code (o : Operator) : Plain o.code.toList :=
  plain_of_isLower o.code_spec.2 (by cases o <;> decide)

theorem Quantity.plain_code {q : Quantity} (h : q ≠ tags) : Plain q.code.toList :=
  plain_of_isLower q.code_spec.2 (by cases q <;> first | exact absurd rfl h | decide)

/-! ## Tokens -/

inductive Token where
  | operator (o : Operator)
  | quantity (q : Quantity)
  /-- The name is without the dollar sign. -/
  | userVariable (name : String)
  | literal (word : String)

namespace Token

def written : Token → String
  | operator o => o.symbol
  | quantity q => q.name
  | userVariable name => "$" ++ name
  | literal word => word

def code : Token → String
  | operator o => o.code
  | quantity q => q.code
  | userVariable name => "$" ++ name
  | literal word => word

def WellFormed : Token → Prop
  | userVariable name => name ≠ "" ∧ ∀ c ∈ name.toList, isSeparator c = false
  | literal word => word ≠ "" ∧ Plain word.toList
  | _ => True

theorem exists_cons_written {t : Token} (h : t.WellFormed) :
    ∃ c cs, t.written.toList = c :: cs ∧ isSeparator c = false := by
  cases t with
  | operator o =>
    obtain ⟨c, cs, hs⟩ := List.exists_cons_of_ne_nil o.symbol_spec.1
    exact ⟨c, cs, hs, (o.symbol_spec.2 c (hs ▸ List.mem_cons_self ..)).2.1⟩
  | quantity q => cases q <;> exact ⟨_, _, rfl, by decide⟩
  | userVariable name => exact ⟨'$', name.toList, by simp [written], by decide⟩
  | literal word =>
    have hne : word.toList ≠ [] := fun hnil => h.1 (String.toList_eq_nil_iff.mp hnil)
    obtain ⟨c, cs, hw⟩ := List.exists_cons_of_ne_nil hne
    exact ⟨c, cs, hw, h.2.separator c (hw ▸ List.mem_cons_self ..)⟩

theorem collapse_written_append {t : Token} (h : t.WellFormed) (v : List Char) :
    collapse (t.written.toList ++ v) = t.written.toList ++ collapse v := by
  cases t with
  | operator o => exact collapse_append_of_no_separator v fun c hc => (o.symbol_spec.2 c hc).2.1
  | quantity q => cases q <;> exact collapse_append v (by decide) (by unfold SingleUnderscores; decide) (by decide)
  | userVariable name =>
    apply collapse_append_of_no_separator v
    intro c hc
    simp only [written, String.toList_append, List.mem_append] at hc
    rcases hc with hc | hc
    · rw [List.mem_singleton.mp hc]; decide
    · exact h.2 c hc
  | literal word => exact collapse_append_of_no_separator v h.2.separator

/-- A token is replaced by its code, if an underscore comes next or the text ends. An operator needs the
underscore. -/
theorem translate_written_append {t : Token} (h : t.WellFormed) {rest : List Char}
    (hrest : ∀ c ∈ rest.head?, c = '_') (ho : rest = [] → ∀ o, t ≠ operator o) :
    translate (t.written.toList ++ rest) = t.code.toList ++ translate rest := by
  cases t with
  | operator o =>
    cases rest with
    | nil => exact absurd rfl (ho rfl o)
    | cons c rest =>
      obtain rfl := hrest c rfl
      rw [translate_underscore]
      exact translate_operator o rest
  | quantity q => exact translate_quantity q rest
  | userVariable name =>
    have hname : name.toList ≠ [] := fun hnil => h.1 (String.toList_eq_nil_iff.mp hnil)
    have hunderscore : '_' ∉ name.toList := fun hm => absurd (h.2 '_' hm) (by decide)
    refine translate_reference ⟨[], name.toList, ?_, List.forall_mem_nil _, hname, hunderscore⟩ hrest
    simp [written]
  | literal word => exact h.2.translate_append hrest

/-! ## The token that is left -/

/-- The token that the code of a token spells. Of the quantities, only `tags` has its name as its code. -/
def abbreviated : Token → Token
  | operator o => literal o.code
  | quantity q => if q = .tags then quantity q else literal q.code
  | t => t

theorem abbreviated_ne_operator (t : Token) (o : Operator) : t.abbreviated ≠ operator o := by
  cases t with
  | quantity q => cases q <;> simp [abbreviated]
  | _ => simp [abbreviated]

theorem written_abbreviated (t : Token) : t.abbreviated.written = t.code := by
  cases t with
  | quantity q => cases q <;> rfl
  | _ => rfl

theorem code_abbreviated (t : Token) : t.abbreviated.code = t.code := by
  cases t with
  | quantity q => cases q <;> rfl
  | _ => rfl

theorem WellFormed.abbreviated {t : Token} (h : t.WellFormed) : t.abbreviated.WellFormed := by
  cases t with
  | operator o => exact ⟨fun hnil => o.code_spec.1 (String.toList_eq_nil_iff.mpr hnil), o.plain_code⟩
  | quantity q =>
    show (if q = .tags then quantity q else literal q.code).WellFormed
    by_cases hq : q = .tags
    · rw [if_pos hq]; trivial
    · rw [if_neg hq]
      exact ⟨fun hnil => q.code_spec.1 (String.toList_eq_nil_iff.mpr hnil), Quantity.plain_code hq⟩
  | userVariable name => exact h
  | literal word => exact h

end Token

/-! ## Expressions -/

/-- The tokens stand one after the other, with separators between them. -/
inductive Spelled : List Token → List Char → Prop
  | last (t) : Spelled [t] t.written.toList
  | cons (t gap) {tokens cs} : gap ≠ [] → (∀ c ∈ gap, isSeparator c = true) → Spelled tokens cs →
      Spelled (t :: tokens) (t.written.toList ++ gap ++ cs)

theorem Spelled.intercalate : ∀ {tokens : List Token}, tokens ≠ [] →
    Spelled tokens ("_".intercalate (tokens.map Token.written)).toList
  | [], h => absurd rfl h
  | [t], _ => by
    rw [List.map_singleton, String.intercalate_singleton]
    exact .last t
  | t :: next :: tokens, _ => by
    rw [List.map_cons, List.map_cons, String.intercalate_cons_cons, String.toList_append, String.toList_append]
    exact .cons t ['_'] (List.cons_ne_nil _ _) (by simp [isSeparator]) (Spelled.intercalate (List.cons_ne_nil next tokens))

/-- The last token is not an operator. -/
def Closed (tokens : List Token) : Prop := ∀ o, tokens.getLast? ≠ some (.operator o)

namespace Spelled
variable {tokens : List Token} {cs : List Char}

theorem ne_nil (h : Spelled tokens cs) : tokens ≠ [] := by
  cases h <;> exact List.cons_ne_nil _ _

theorem head_not_separator (h : Spelled tokens cs) (hw : ∀ t ∈ tokens, t.WellFormed) :
    cs.head?.any isSeparator = false := by
  have hhead : ∀ {t : Token}, t.WellFormed → ∀ v, (t.written.toList ++ v).head?.any isSeparator = false := by
    intro t ht v
    obtain ⟨c, cs, hwritten, hc⟩ := Token.exists_cons_written ht
    rw [hwritten]
    exact hc
  cases h with
  | last t =>
    have ht := hhead (hw t (List.mem_cons_self ..)) []
    rw [List.append_nil] at ht
    exact ht
  | cons t gap _ _ _ =>
    rw [List.append_assoc]
    exact hhead (hw t (List.mem_cons_self ..)) _

theorem toList_compact (h : Spelled tokens cs) (hw : ∀ t ∈ tokens, t.WellFormed) (hc : Closed tokens) :
    compact cs = ("_".intercalate (tokens.map Token.code)).toList := by
  rw [compact_eq]
  induction h with
  | last t =>
    have ht := hw t (List.mem_cons_self ..)
    have hcollapse := Token.collapse_written_append ht []
    have htranslate : translate (t.written.toList ++ []) = t.code.toList ++ translate [] :=
      Token.translate_written_append ht (by simp) fun _ o he => hc o (by rw [he]; rfl)
    rw [List.append_nil, collapse, List.append_nil] at hcollapse
    rw [List.append_nil, translate_nil, List.append_nil] at htranslate
    rw [hcollapse, htranslate, List.map_singleton, String.intercalate_singleton]
  | @cons t gap tokens cs hne hgap hs ih =>
    obtain ⟨next, later, rfl⟩ := List.exists_cons_of_ne_nil hs.ne_nil
    rw [List.forall_mem_cons] at hw
    have hc' : Closed (next :: later) := fun o ho => hc o (by rw [List.getLast?_cons_cons]; exact ho)
    have hcodes : "_".intercalate ((t :: next :: later).map Token.code) =
        t.code ++ "_" ++ "_".intercalate ((next :: later).map Token.code) := String.intercalate_cons_cons
    rw [List.append_assoc, Token.collapse_written_append hw.1,
      collapse_gap hne hgap (hs.head_not_separator hw.2),
      Token.translate_written_append hw.1 (by simp) (by simp), translate_underscore, ih hw.2 hc',
      hcodes, String.toList_append, String.toList_append, List.append_assoc]
    rfl

end Spelled

theorem normalize_spelled_eq {tokens : List Token} {s : String} (h : Spelled tokens s.toList)
    (hw : ∀ t ∈ tokens, t.WellFormed) (hc : Closed tokens) : normalize s = "_".intercalate (tokens.map Token.code) := by
  rw [← String.toList_inj, toList_normalize]
  exact h.toList_compact hw hc

theorem closed_abbreviated (tokens : List Token) : Closed (tokens.map Token.abbreviated) := by
  intro o ho
  rw [List.getLast?_map, Option.map_eq_some_iff] at ho
  obtain ⟨t, -, ht⟩ := ho
  exact t.abbreviated_ne_operator o ht

/-- An expression becomes compact token by token, whatever separates its tokens. What comes out is compact. -/
theorem normalize_spelled {tokens : List Token} {s : String} (h : Spelled tokens s.toList)
    (hw : ∀ t ∈ tokens, t.WellFormed) (hc : Closed tokens) :
    normalize s = "_".intercalate (tokens.map Token.code) ∧ normalize (normalize s) = normalize s := by
  have heq := normalize_spelled_eq h hw hc
  refine ⟨heq, ?_⟩
  have hne : tokens.map Token.abbreviated ≠ [] := by simpa using h.ne_nil
  have hw' : ∀ t ∈ tokens.map Token.abbreviated, t.WellFormed := by
    intro t ht
    obtain ⟨u, hu, rfl⟩ := List.mem_map.mp ht
    exact (hw u hu).abbreviated
  -- the codes spell tokens of their own, whose codes they are
  have hcodes : (tokens.map Token.abbreviated).map Token.written = tokens.map Token.code ∧
      (tokens.map Token.abbreviated).map Token.code = tokens.map Token.code := by
    rw [List.map_map, List.map_map]
    exact ⟨List.map_congr_left fun t _ => t.written_abbreviated, List.map_congr_left fun t _ => t.code_abbreviated⟩
  have hs := Spelled.intercalate hne
  rw [hcodes.1, ← heq] at hs
  rw [normalize_spelled_eq hs hw' (closed_abbreviated tokens), hcodes.2, heq]

def ratioTokens : List Token :=
  [.quantity .initialWidth, .operator .div, .literal "2", .operator .gte, .userVariable "limit"]

theorem normalize_spelled_ratio : Spelled ratioTokens "initial_width  /_ 2 >= $limit".toList ∧
    (∀ t ∈ ratioTokens, t.WellFormed) ∧ Closed ratioTokens ∧
    normalize "initial_width  /_ 2 >= $limit" = "iw_div_2_gte_$limit" ∧
    normalize (normalize "initial_width  /_ 2 >= $limit") = normalize "initial_width  /_ 2 >= $limit" := by
  have hs : Spelled ratioTokens "initial_width  /_ 2 >= $limit".toList :=
    .cons (.quantity .initialWidth) [' ', ' '] (by simp) (by simp [isSeparator]) <|
      .cons (.operator .div) ['_', ' '] (by simp) (by simp [isSeparator]) <|
      .cons (.literal "2") [' '] (by simp) (by simp [isSeparator]) <|
      .cons (.operator .gte) [' '] (by simp) (by simp [isSeparator]) <|
      .last (.userVariable "limit")
  have hplain : Plain "2".toList := ⟨by simp [isSeparator], by decide, fun o => by cases o <;> decide, by decide⟩
  have hw : ∀ t ∈ ratioTokens, t.WellFormed := by
    simp only [ratioTokens, List.forall_mem_cons]
    exact ⟨trivial, trivial, ⟨by decide, hplain⟩, trivial, ⟨by decide, by simp [isSeparator]⟩, List.forall_mem_nil _⟩
  have hc : Closed ratioTokens := by
    intro o ho
    cases ho
  exact ⟨hs, hw, hc, (normalize_spelled hs hw hc).1, (normalize_spelled hs hw hc).2⟩

end DeliveryPath
