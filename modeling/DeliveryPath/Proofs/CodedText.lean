import DeliveryPath.Proofs.CompactSteps

/-!
# Texts that are compact already

A text is its own compact form if its separators are single underscores and nothing outside its references has a code
(`normalize_eq_self_iff`). For the converse it must be seen that replacements never make up for one another: a name is
longer than its code, but a symbol is shorter. With characters other than letters weighing more (`weight`), every
replacement makes the text lighter.
-/

namespace DeliveryPath

/-! ## Nothing to replace -/

/-- No symbol stands before an underscore, and no name occurs but `tags`, which is its own code. -/
structure Coded (cs : List Char) : Prop where
  symbol (o : Operator) : ¬o.symbol.toList ++ ['_'] <:+: cs
  name (q : Quantity) : q ≠ .tags → ¬q.name.toList <:+: cs

theorem coded_nil : Coded [] where
  symbol o h := by simp at h
  name q _ h := by
    obtain ⟨c, cs, hq, -⟩ := q.name_spec
    simp [hq] at h

namespace Coded
variable {c : Char} {u cs : List Char}

theorem of_infix (h : Coded cs) (hu : u <:+: cs) : Coded u where
  symbol o ho := h.symbol o (ho.trans hu)
  name q hq hn := h.name q hq (hn.trans hu)

theorem of_append (h : Coded (u ++ cs)) : Coded cs := h.of_infix (List.suffix_append u cs).isInfix

theorem cons (h : Coded cs) (ho : ∀ o : Operator, ¬o.symbol.toList ++ ['_'] <+: c :: cs)
    (hq : ∀ q : Quantity, q ≠ .tags → ¬q.name.toList <+: c :: cs) : Coded (c :: cs) where
  symbol o hin := (List.infix_cons_iff.mp hin).elim (ho o) (h.symbol o)
  name q hne hin := (List.infix_cons_iff.mp hin).elim (hq q hne) (h.name q hne)

end Coded

theorem not_symbol_prefix_of_isLower {c : Char} (hc : c.isLower = true) (cs : List Char) (o : Operator) :
    ¬o.symbol.toList ++ ['_'] <+: c :: cs := by
  obtain ⟨a, symbol, hs⟩ := List.exists_cons_of_ne_nil o.symbol_spec.1
  rw [hs, List.cons_append, List.cons_prefix_cons]
  rintro ⟨rfl, -⟩
  have ha := (o.symbol_spec.2 a (hs ▸ List.mem_cons_self ..)).1
  rw [hc] at ha
  cases ha

/-- No other name begins within `tags`. -/
theorem Coded.tags {cs : List Char} (h : Coded cs) : Coded (Quantity.tags.name.toList ++ cs) := by
  have hword : ∀ v ∈ Quantity.tags.name.toList.tails, v ≠ [] → ∀ q ∈ Quantity.all, q ≠ .tags →
      ¬q.name.toList <+: v ∧ ¬v <+: q.name.toList := by decide
  have hname : ∀ v, v <:+ Quantity.tags.name.toList → v ≠ [] → ∀ q : Quantity, q ≠ .tags →
      ¬q.name.toList <+: v ++ cs := by
    intro v hv hne q hq hpre
    obtain ⟨hlong, hshort⟩ := hword v ((List.mem_tails _ _).mpr hv) hne q q.mem_all hq
    exact (List.prefix_or_prefix_of_prefix hpre (List.prefix_append v cs)).elim hlong hshort
  have hlower : Quantity.tags.name.toList.all Char.isLower = true := by decide
  suffices hv : ∀ v, v <:+ Quantity.tags.name.toList → Coded (v ++ cs) from hv _ (List.suffix_refl _)
  intro v
  induction v with
  | nil => exact fun _ => h
  | cons c v ih =>
    intro hv
    refine (ih ((List.suffix_cons c v).trans hv)).cons ?_ (hname (c :: v) hv (List.cons_ne_nil c v))
    exact not_symbol_prefix_of_isLower (List.all_eq_true.mp hlower c (hv.subset (List.mem_cons_self ..))) _

theorem abbreviate_of_coded {afterDollar : Bool} {cs : List Char} (h : Coded cs) (hs : ' ' ∉ cs) :
    abbreviate afterDollar cs = cs := by
  induction afterDollar, cs using abbreviate.induct with
  | case1 afterDollar cs o c rest ho _ _ =>
    obtain ⟨rfl, hc⟩ := append_of_operatorAt? ho
    obtain rfl : c = '_' := eq_underscore_of_isSeparator hc fun hc => hs (by simp [hc])
    exact absurd ⟨[], rest, by simp⟩ (h.symbol o)
  | case2 afterDollar cs ho q rest hq _ ih =>
    rw [abbreviate_of_quantityAt? afterDollar ho hq]
    have heq := append_of_quantityAt? hq
    subst heq
    rw [List.mem_append, not_or] at hs
    have htags : q = .tags := by
      by_contra hne
      exact h.name q hne (List.prefix_append _ rest).isInfix
    rw [ih h.of_append hs.2, htags]
    cases afterDollar <;> rfl
  | case3 afterDollar _ _ => exact abbreviate_nil afterDollar
  | case4 afterDollar c rest ho hq ih =>
    rw [List.mem_cons, not_or] at hs
    rw [abbreviate_cons afterDollar ho hq, ih (h.of_append (u := [c])) hs.2]

/-! ## Replacements make a text lighter -/

def weight : List Char → Nat
  | [] => 0
  | c :: cs => (if c.isLower then 1 else 4) + weight cs

theorem weight_cons (c : Char) (cs : List Char) : weight (c :: cs) = weight [c] + weight cs :=
  rfl

theorem weight_append (u v : List Char) : weight (u ++ v) = weight u + weight v := by
  induction u with
  | nil => exact (Nat.zero_add _).symm
  | cons c u ih => rw [List.cons_append, weight_cons c (u ++ v), weight_cons c u, ih, Nat.add_assoc]

theorem Operator.weight_code_lt (o : Operator) : weight o.code.toList < weight o.symbol.toList := by
  cases o <;> decide

theorem Quantity.weight_code_lt {q : Quantity} (h : q ≠ tags) : weight q.code.toList < weight q.name.toList := by
  cases q <;> first | exact absurd rfl h | decide

theorem Abbreviates.weight_le {cs out : List Char} (h : Abbreviates cs out) : weight out ≤ weight cs := by
  induction h with
  | nil => exact Nat.le_refl _
  | @operator o c rest out _ _ ih =>
    have ho := o.weight_code_lt
    rw [weight_append, weight_append, weight_cons c out, weight_cons c rest]
    omega
  | @quantity q rest out _ ih =>
    rw [weight_append, weight_append]
    by_cases hq : q = .tags
    · subst hq
      exact Nat.add_le_add_left ih _
    · have hlt := Quantity.weight_code_lt hq
      omega
  | @keep c rest out _ _ ih =>
    rw [weight_cons c out, weight_cons c rest]
    exact Nat.add_le_add_left ih _

theorem coded_of_weight_le {afterDollar : Bool} {cs : List Char} (h : NoReference cs)
    (hd : afterDollar = true → ∀ c ∈ cs, c = '_') (hw : weight cs ≤ weight (abbreviate afterDollar cs)) : Coded cs := by
  induction afterDollar, cs using abbreviate.induct with
  | case1 afterDollar cs o c rest ho _ _ =>
    obtain ⟨rfl, hc⟩ := append_of_operatorAt? ho
    have hrest := (abbreviates_text h.of_append.2).weight_le
    have hcode := o.weight_code_lt
    rw [abbreviate_of_operatorAt? afterDollar ho, weight_append, weight_append, weight_cons c rest,
      weight_cons c (abbreviate false rest)] at hw
    omega
  | case2 afterDollar cs ho q rest hq _ ih =>
    have heq := append_of_quantityAt? hq
    subst heq
    have hrest := (abbreviates_text h.of_append).weight_le
    rw [abbreviate_of_quantityAt? afterDollar ho hq, q.not_afterDollar hd, if_neg Bool.false_ne_true, weight_append,
      weight_append] at hw
    by_cases htags : q = .tags
    · subst htags
      exact (ih h.of_append (by simp) (Nat.le_of_add_le_add_left hw)).tags
    · have hcode := Quantity.weight_code_lt htags
      omega
  | case3 _ _ _ => exact coded_nil
  | case4 afterDollar c rest ho hq ih =>
    rw [abbreviate_cons afterDollar ho hq, weight_cons c rest, weight_cons c (abbreviate _ rest)] at hw
    have hrest := ih h.2 (fun hc => h.1 (beq_iff_eq.mp hc)) (Nat.le_of_add_le_add_left hw)
    rw [operatorAt?_eq_none_iff] at ho
    rw [quantityAt?_eq_none_iff] at hq
    refine hrest.cons ?_ ?_
    · rintro o ⟨tail, htail⟩
      exact ho o '_' tail (by decide) (by rw [← htail, List.append_assoc]; rfl)
    · rintro q - ⟨tail, htail⟩
      exact hq q tail htail.symm

theorem abbreviate_eq_self_iff {cs : List Char} (h : NoReference cs) (hs : ' ' ∉ cs) :
    abbreviate false cs = cs ↔ Coded cs := by
  constructor
  · intro heq
    have hw : weight cs ≤ weight (abbreviate false cs) := by rw [heq]
    exact coded_of_weight_le h (by simp) hw
  · intro hc
    exact abbreviate_of_coded hc hs

/-! ## Whole texts -/

theorem singleUnderscores_iff {cs : List Char} : SingleUnderscores cs ↔ ¬['_', '_'] <:+: cs := by
  constructor
  · intro h hin
    have hpair := List.IsChain.infix h hin
    exact List.isChain_pair.mp hpair rfl rfl
  · intro h
    refine List.isChain_iff_forall_rel_of_append_cons_cons.mpr ?_
    rintro c d u v heq rfl rfl
    exact h ⟨u, v, by rw [heq]; simp⟩

theorem collapse_eq_self {cs : List Char} (hspace : ' ' ∉ cs) (hs : SingleUnderscores cs) : collapse cs = cs := by
  by_cases hlast : cs.getLast? = some '_'
  · obtain ⟨u, rfl⟩ := List.getLast?_eq_some_iff.mp hlast
    rw [List.mem_append, not_or] at hspace
    have hu : u.getLast? ≠ some '_' := by
      intro h
      obtain ⟨v, rfl⟩ := List.getLast?_eq_some_iff.mp h
      exact singleUnderscores_iff.mp hs ⟨v, [], by simp⟩
    rw [collapse_append ['_'] hspace.1 hs.left_of_append hu]
    rfl
  · have h := collapse_append [] hspace hs hlast
    rwa [List.append_nil, collapse, List.append_nil] at h

theorem Partition.infix_of_text {cs x : List Char} {ps : List Piece} (h : Partition cs ps) (hx : .text x ∈ ps) :
    x <:+: cs := by
  obtain ⟨before, after, rfl⟩ := List.append_of_mem hx
  rw [← h.flatMap_chars, List.flatMap_append, List.flatMap_cons, ← List.append_assoc]
  exact List.infix_append ..

theorem Partition.not_mem_of_text {cs x : List Char} {ps : List Piece} {c : Char} (h : Partition cs ps)
    (hx : .text x ∈ ps) (hc : c ∉ cs) : c ∉ x := fun hm => hc ((h.infix_of_text hx).subset hm)

theorem Partition.flatMap_compact_of_coded {cs : List Char} {ps : List Piece} (h : Partition cs ps) (hs : ' ' ∉ cs)
    (hc : ∀ x, .text x ∈ ps → Coded x) : ps.flatMap Piece.compact = cs := by
  have hsame : ∀ p ∈ ps, p.compact = p.chars := by
    intro p hp
    cases p with
    | reference r => rfl
    | text x => exact abbreviate_of_coded (hc x hp) (h.not_mem_of_text hp hs)
  rw [List.flatMap_congr hsame, h.flatMap_chars]

/-- A text is compact already if and only if it has neither blanks nor underscores side by side, and outside its
references no symbol stands before an underscore and no name but `tags` occurs. -/
theorem normalize_eq_self_iff (s : String) : normalize s = s ↔ ' ' ∉ s.toList ∧ ¬['_', '_'] <:+: s.toList ∧
    ∀ x, .text x ∈ pieces s.toList →
      (∀ o : Operator, ¬o.symbol.toList ++ ['_'] <:+: x) ∧ ∀ q : Quantity, q ≠ .tags → ¬q.name.toList <:+: x := by
  have hp := partition_pieces s.toList
  rw [← String.toList_inj, toList_normalize, ← singleUnderscores_iff]
  constructor
  · intro heq
    have hcollapsed := partition_pieces (collapse s.toList)
    have hspace := hcollapsed.space_not_mem_flatMap_compact (space_not_mem_collapse _)
    have hsingle := hcollapsed.singleUnderscores_flatMap_compact (singleUnderscores_collapse _)
    rw [← compact, heq] at hspace hsingle
    refine ⟨hspace, hsingle, fun x hx => ?_⟩
    -- the stretches of the compact form are those of the text, abbreviated, so each of them stays
    have hpieces := (partition_compact s.toList).eq_pieces
    rw [heq, collapse_eq_self hspace hsingle] at hpieces
    have hsame : ∀ p ∈ pieces s.toList, p.abbreviated = p := by
      refine List.map_inj_left.mp ?_
      rw [← hpieces, List.map_id']
    have hcoded := (abbreviate_eq_self_iff (hp.noReference_of_text hx) (hp.not_mem_of_text hx hspace)).mp
      (Piece.text.inj (hsame _ hx))
    exact ⟨hcoded.symbol, hcoded.name⟩
  · rintro ⟨hspace, hsingle, hx⟩
    rw [compact, collapse_eq_self hspace hsingle]
    exact hp.flatMap_compact_of_coded hspace fun x hm => ⟨(hx x hm).1, (hx x hm).2⟩

end DeliveryPath
