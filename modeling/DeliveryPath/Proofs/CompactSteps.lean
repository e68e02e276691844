import DeliveryPath.Proofs.CompactForm

/-!
# Compact text from left to right

Parting a text into pieces and abbreviating these one by one comes to the same as one walk from left to right:
references are copied, symbols before an underscore and names are replaced by their codes, and other characters
stay. There is one step of the walk for each of these.
-/

namespace DeliveryPath

/-! ## Collapsing a part -/

theorem collapse_append : ∀ {u : List Char} (v : List Char), ' ' ∉ u → SingleUnderscores u → u.getLast? ≠ some '_' →
    collapse (u ++ v) = u ++ collapse v
  | [], _, _, _, _ => rfl
  | c :: u, v, hspace, hs, hlast => by
    rw [List.mem_cons, not_or] at hspace
    obtain ⟨hhead, hs⟩ := List.isChain_cons.mp hs
    have hlast' : u.getLast? ≠ some '_' := by
      intro h
      rw [List.getLast?_cons, h] at hlast
      exact hlast rfl
    have ih := collapse_append v hspace.2 hs hlast'
    by_cases hc : isSeparator c = true
    · have hc' : c = '_' := eq_underscore_of_isSeparator hc (Ne.symm hspace.1)
      subst hc'
      -- an underscore is not the last character, and neither a blank nor an underscore comes next
      obtain ⟨d, u, rfl⟩ := List.exists_cons_of_ne_nil (show u ≠ [] from fun h => by simp [h] at hlast)
      have hd : isSeparator d = false := by
        have hne := hhead d rfl rfl
        rw [List.mem_cons, not_or] at hspace
        simp [isSeparator, hne, Ne.symm hspace.2.1]
      have hany : (d :: u ++ v).head?.any isSeparator = false := hd
      rw [List.cons_append, collapse, if_pos hc, hany, if_neg Bool.false_ne_true, ih]; rfl
    · rw [Bool.not_eq_true] at hc
      rw [List.cons_append, collapse_cons_of_not_isSeparator hc, ih, List.cons_append]

theorem collapse_append_of_no_separator {u : List Char} (v : List Char) (hu : ∀ c ∈ u, isSeparator c = false) :
    collapse (u ++ v) = u ++ collapse v := by
  induction u with
  | nil => rfl
  | cons c u ih =>
    rw [List.forall_mem_cons] at hu
    rw [List.cons_append, collapse_cons_of_not_isSeparator hu.1, ih hu.2, List.cons_append]

theorem collapse_gap : ∀ {gap cs : List Char}, gap ≠ [] → (∀ c ∈ gap, isSeparator c = true) →
    cs.head?.any isSeparator = false → collapse (gap ++ cs) = '_' :: collapse cs
  | [], _, hne, _, _ => absurd rfl hne
  | [c], cs, _, hgap, hcs => by
    rw [List.singleton_append, collapse, if_pos (hgap c (List.mem_singleton_self c)), hcs]; rfl
  | c :: d :: gap, cs, _, hgap, hcs => by
    rw [List.forall_mem_cons] at hgap
    have hd : isSeparator d = true := hgap.2 d (List.mem_cons_self ..)
    have ih := collapse_gap (List.cons_ne_nil d gap) hgap.2 hcs
    rw [List.cons_append, collapse, if_pos hgap.1, ← ih]
    simp [hd]

/-! ## Walking over a text -/

/-- A text with collapsed separators, with codes for its operators and quantities. -/
def translate (cs : List Char) : List Char := (pieces cs).flatMap Piece.compact

theorem compact_eq (cs : List Char) : compact cs = translate (collapse cs) := rfl

theorem translate_nil : translate [] = [] := by
  unfold translate
  rw [pieces_nil]; rfl

theorem pieces_append (rest : List Char) : ∀ {u : List Char}, '$' ∉ u →
    pieces (u ++ rest) = u.foldr Piece.consText (pieces rest)
  | [], _ => rfl
  | c :: u, h => by
    rw [List.mem_cons, not_or] at h
    rw [List.cons_append, pieces_cons (referenceAt?_cons_eq_none_iff.mpr fun hc => absurd hc.symm h.1),
      pieces_append rest h.2, List.foldr_cons]

theorem foldr_consText_text (u x : List Char) (ps : List Piece) :
    u.foldr Piece.consText (.text x :: ps) = .text (u ++ x) :: ps := by
  induction u with
  | nil => rfl
  | cons c u ih => rw [List.foldr_cons, ih]; rfl

theorem foldr_consText_new {ps : List Piece} (hps : ∀ x qs, ps ≠ .text x :: qs) : ∀ {u : List Char}, u ≠ [] →
    u.foldr Piece.consText ps = .text u :: ps
  | [], hu => absurd rfl hu
  | [c], _ => by
    match ps, hps with
    | [], _ => rfl
    | .text x :: qs, hps => exact absurd rfl (hps x qs)
    | .reference r :: qs, _ => rfl
  | c :: d :: u, _ => by
    rw [List.foldr_cons, foldr_consText_new hps (List.cons_ne_nil d u)]; rfl

/-- What is put before a text, if it has no dollar sign, is abbreviated together with the first stretch. -/
theorem exists_stretch (rest : List Char) : ∃ x y, x <+: rest ∧ translate rest = abbreviate false x ++ y ∧
    ∀ u, '$' ∉ u → translate (u ++ rest) = abbreviate false (u ++ x) ++ y := by
  suffices h : ∃ x y, x <+: rest ∧ ∀ u, '$' ∉ u → translate (u ++ rest) = abbreviate false (u ++ x) ++ y by
    obtain ⟨x, y, hx, h⟩ := h
    exact ⟨x, y, hx, h [] List.not_mem_nil, h⟩
  have hchars := (partition_pieces rest).flatMap_chars
  have hnew : (∀ x qs, pieces rest ≠ .text x :: qs) → ∀ u, '$' ∉ u →
      translate (u ++ rest) = abbreviate false (u ++ []) ++ translate rest := by
    intro hps u hu
    rw [List.append_nil]
    by_cases hne : u = []
    · rw [hne, abbreviate_nil]; rfl
    · unfold translate
      rw [pieces_append rest hu, foldr_consText_new hps hne]; rfl
  cases hp : pieces rest with
  | nil => exact ⟨[], translate rest, List.nil_prefix, hnew (by rw [hp]; simp)⟩
  | cons p ps =>
    cases p with
    | reference r => exact ⟨[], translate rest, List.nil_prefix, hnew (by rw [hp]; simp)⟩
    | text x =>
      rw [hp] at hchars
      refine ⟨x, ps.flatMap Piece.compact, ⟨_, hchars⟩, ?_⟩
      intro u hu
      unfold translate
      rw [pieces_append rest hu, hp, foldr_consText_text]; rfl

/-! ## What begins a text -/

theorem eq_of_append_separator {u v : List Char} {c d : Char} {rest rest' : List Char}
    (hu : ∀ a ∈ u, isSeparator a = false) (hv : ∀ a ∈ v, isSeparator a = false) (hc : isSeparator c = true)
    (hd : isSeparator d = true) (h : u ++ c :: rest = v ++ d :: rest') : u = v ∧ c :: rest = d :: rest' := by
  have hsplit := takeWhile_dropWhile_append (p := (!isSeparator ·)) (u := u) (v := c :: rest)
    (fun a ha => by simp [hu a ha]) fun a ha => by cases ha; simp [hc]
  have hsplit' := takeWhile_dropWhile_append (p := (!isSeparator ·)) (u := v) (v := d :: rest')
    (fun a ha => by simp [hv a ha]) fun a ha => by cases ha; simp [hd]
  rw [h] at hsplit
  exact ⟨hsplit.1.symm.trans hsplit'.1, hsplit.2.symm.trans hsplit'.2⟩

theorem Operator.symbol_inj {o p : Operator} (h : o.symbol = p.symbol) : o = p := by
  have hs := ofSymbol?_symbol o
  rw [h, ofSymbol?_symbol p] at hs
  exact (Option.some.inj hs).symm

theorem operatorAt?_symbol {o : Operator} {c : Char} (hc : isSeparator c = true) (rest : List Char) :
    operatorAt? (o.symbol.toList ++ c :: rest) = some (o, c, rest) := by
  cases h : operatorAt? (o.symbol.toList ++ c :: rest) with
  | none => exact absurd h (operatorAt?_ne_none hc)
  | some found =>
    obtain ⟨p, d, rest'⟩ := found
    obtain ⟨heq, hd⟩ := append_of_operatorAt? h
    have hsymbol : ∀ q : Operator, ∀ a ∈ q.symbol.toList, isSeparator a = false :=
      fun q a ha => (q.symbol_spec.2 a ha).2.1
    obtain ⟨hs, hrest⟩ := eq_of_append_separator (hsymbol o) (hsymbol p) hc hd heq
    cases hrest
    rw [Operator.symbol_inj (String.toList_inj.mp hs)]

theorem operatorAt?_eq_none_iff {cs : List Char} : operatorAt? cs = none ↔
    ∀ (o : Operator) (c : Char) (rest : List Char), isSeparator c = true → cs ≠ o.symbol.toList ++ c :: rest := by
  constructor
  · intro h o c rest hc heq
    rw [heq] at h
    exact operatorAt?_ne_none hc h
  · intro h
    cases ho : operatorAt? cs with
    | none => rfl
    | some found =>
      obtain ⟨o, c, rest⟩ := found
      obtain ⟨heq, hc⟩ := append_of_operatorAt? ho
      exact absurd heq (h o c rest hc)

theorem quantityAt?_ne_none (q : Quantity) (rest : List Char) : quantityAt? (q.name.toList ++ rest) ≠ none := by
  unfold quantityAt?
  intro h
  have hq := List.findSome?_eq_none_iff.mp h q q.mem_all
  rw [dropFront?_append] at hq
  cases hq

theorem quantityAt?_eq_none_iff {cs : List Char} : quantityAt? cs = none ↔
    ∀ (q : Quantity) (rest : List Char), cs ≠ q.name.toList ++ rest := by
  constructor
  · intro h q rest heq
    rw [heq] at h
    exact quantityAt?_ne_none q rest h
  · intro h
    cases hq : quantityAt? cs with
    | none => rfl
    | some found =>
      obtain ⟨q, rest⟩ := found
      exact absurd (append_of_quantityAt? hq) (h q rest)

/-- Where no operator and no name begins a text, none begins a part of it from the front. -/
theorem nothing_at_shorter {cs ds : List Char} (h : cs <+: ds) (ho : operatorAt? ds = none)
    (hq : quantityAt? ds = none) : operatorAt? cs = none ∧ quantityAt? cs = none := by
  obtain ⟨tail, rfl⟩ := h
  rw [operatorAt?_eq_none_iff] at ho ⊢
  rw [quantityAt?_eq_none_iff] at hq ⊢
  constructor
  · intro o c rest hc heq
    exact ho o c (rest ++ tail) hc (by rw [heq, List.append_assoc, List.cons_append])
  · intro q rest heq
    exact hq q (rest ++ tail) (by rw [heq, List.append_assoc])

/-- No name begins another one. -/
theorem Quantity.name_prefix_inj {p q : Quantity} (h : p.name.toList <+: q.name.toList) : p = q := by
  have hall : ∀ p ∈ all, ∀ q ∈ all, p.name.toList <+: q.name.toList → p = q := by decide
  exact hall p p.mem_all q q.mem_all h

theorem quantityAt?_name (q : Quantity) (rest : List Char) : quantityAt? (q.name.toList ++ rest) = some (q, rest) := by
  cases h : quantityAt? (q.name.toList ++ rest) with
  | none => exact absurd h (quantityAt?_ne_none q rest)
  | some found =>
    obtain ⟨p, rest'⟩ := found
    have heq := append_of_quantityAt? h
    have hpq : p = q := by
      rcases List.prefix_or_prefix_of_prefix (List.prefix_append p.name.toList rest')
        (heq ▸ List.prefix_append q.name.toList rest) with hpre | hpre
      · exact Quantity.name_prefix_inj hpre
      · exact (Quantity.name_prefix_inj hpre).symm
    subst hpq
    rw [List.append_cancel_left heq]

theorem operatorAt?_eq_none_of_head {c : Char} {rest : List Char} (hc : ∀ o : Operator, c ∉ o.symbol.toList) :
    operatorAt? (c :: rest) = none := by
  rw [operatorAt?_eq_none_iff]
  intro o d tail _ heq
  obtain ⟨a, symbol, hs⟩ := List.exists_cons_of_ne_nil o.symbol_spec.1
  rw [hs, List.cons_append, List.cons.injEq] at heq
  refine absurd ?_ (hc o)
  rw [hs, heq.1]
  exact List.mem_cons_self ..

theorem quantityAt?_eq_none_of_head {c : Char} {rest : List Char} (hc : c.isLower = false) :
    quantityAt? (c :: rest) = none := by
  rw [quantityAt?_eq_none_iff]
  intro q tail heq
  obtain ⟨a, name, hname, ha⟩ := q.name_spec
  rw [hname, List.cons_append, List.cons.injEq] at heq
  exact absurd heq.1.symm (ne_of_isLower ha hc)

/-! ## One step -/

theorem translate_reference {r rest : List Char} (hr : IsReference r) (hrest : ∀ c ∈ rest.head?, c = '_') :
    translate (r ++ rest) = r ++ translate rest := by
  unfold translate
  rw [pieces_of_referenceAt? (referenceAt?_eq_some_iff.mpr ⟨rfl, hr, hrest⟩)]; rfl

theorem translate_cons {c : Char} {rest : List Char} (hc : c ≠ '$') (ho : operatorAt? (c :: rest) = none)
    (hq : quantityAt? (c :: rest) = none) : translate (c :: rest) = c :: translate rest := by
  obtain ⟨x, y, hx, hrest, htranslate⟩ := exists_stretch rest
  obtain ⟨ho, hq⟩ := nothing_at_shorter (List.cons_prefix_cons.mpr ⟨rfl, hx⟩) ho hq
  have hcons := htranslate [c] (by simpa using Ne.symm hc)
  rw [List.singleton_append, List.singleton_append, abbreviate_cons false ho hq, beq_false_of_ne hc] at hcons
  rw [hcons, hrest]; rfl

theorem translate_operator (o : Operator) (rest : List Char) :
    translate (o.symbol.toList ++ '_' :: rest) = o.code.toList ++ '_' :: translate rest := by
  obtain ⟨x, y, -, hrest, htranslate⟩ := exists_stretch rest
  have hdollar : '$' ∉ o.symbol.toList ++ ['_'] := by
    rw [List.mem_append, not_or]
    exact ⟨fun h => (o.symbol_spec.2 '$' h).2.2 rfl, by decide⟩
  have hsymbol := htranslate _ hdollar
  rw [List.append_assoc, List.append_assoc, List.singleton_append, List.singleton_append,
    abbreviate_of_operatorAt? false (operatorAt?_symbol (by decide) x), List.append_assoc, List.cons_append] at hsymbol
  rw [hsymbol, hrest]

theorem Quantity.dollar_not_mem_name (q : Quantity) : '$' ∉ q.name.toList := by cases q <;> decide

theorem translate_quantity (q : Quantity) (rest : List Char) :
    translate (q.name.toList ++ rest) = q.code.toList ++ translate rest := by
  obtain ⟨x, y, -, hrest, htranslate⟩ := exists_stretch rest
  obtain ⟨c, tail, hname, hlower⟩ := q.name_spec
  have ho : operatorAt? (q.name.toList ++ x) = none := by
    rw [hname, List.cons_append]
    apply operatorAt?_eq_none_of_head
    intro o hc
    rw [(o.symbol_spec.2 c hc).1] at hlower
    cases hlower
  have hquantity := htranslate _ q.dollar_not_mem_name
  rw [abbreviate_of_quantityAt? false ho (quantityAt?_name q x), List.append_assoc] at hquantity
  rw [hquantity, hrest]; rfl

theorem translate_underscore (rest : List Char) : translate ('_' :: rest) = '_' :: translate rest := by
  have ho : operatorAt? ('_' :: rest) = none := by
    apply operatorAt?_eq_none_of_head
    intro o ho
    exact absurd (o.symbol_spec.2 '_' ho).2.1 (by decide)
  exact translate_cons (by decide) ho (quantityAt?_eq_none_of_head (by decide))

end DeliveryPath
