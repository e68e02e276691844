import Mathlib.Data.List.Chain
import Mathlib.Data.List.Infix
import DeliveryPath.Proofs.References

/-!
# Abbreviated text

In a text without references, operators and quantities are replaced by their codes and all other characters stay
(`Abbreviates`). Codes are made of letters, so no separator, dollar sign or symbol comes in or goes.
-/

namespace DeliveryPath

/-! ## Codes, names and symbols -/

theorem Operator.code_spec (o : Operator) : o.code.toList ≠ [] ∧ ∀ c ∈ o.code.toList, c.isLower = true := by
  rw [← List.all_eq_true]
  cases o <;> decide

theorem Quantity.code_spec (q : Quantity) : q.code.toList ≠ [] ∧ ∀ c ∈ q.code.toList, c.isLower = true := by
  rw [← List.all_eq_true]
  cases q <;> decide

theorem Operator.symbol_spec (o : Operator) : o.symbol.toList ≠ [] ∧
    ∀ c ∈ o.symbol.toList, c.isLower = false ∧ isSeparator c = false ∧ c ≠ '$' := by
  have hall : o.symbol.toList ≠ [] ∧
      o.symbol.toList.all (fun c => !c.isLower && !isSeparator c && c != '$') = true := by
    cases o <;> decide
  refine ⟨hall.1, fun c hc => ?_⟩
  have hc := List.all_eq_true.mp hall.2 c hc
  simp only [Bool.and_eq_true, Bool.not_eq_true', bne_iff_ne] at hc
  exact ⟨hc.1.1, hc.1.2, hc.2⟩

theorem Quantity.name_spec (q : Quantity) : ∃ c cs, q.name.toList = c :: cs ∧ c.isLower = true := by
  cases q <;> exact ⟨_, _, rfl, by decide⟩

theorem not_mem_of_isLower {cs : List Char} {d : Char} (h : ∀ c ∈ cs, c.isLower = true) (hd : d.isLower = false) :
    d ∉ cs := by
  intro hm
  rw [h d hm] at hd
  cases hd

theorem ne_of_isLower {c d : Char} (hc : c.isLower = true) (hd : d.isLower = false) : c ≠ d := by
  intro h
  rw [h, hd] at hc
  cases hc

theorem operatorAt?_ne_none {o : Operator} {c : Char} {rest : List Char} (hc : isSeparator c = true) :
    operatorAt? (o.symbol.toList ++ c :: rest) ≠ none := by
  unfold operatorAt?
  intro h
  have ho := List.findSome?_eq_none_iff.mp h o o.mem_all
  rw [dropFront?_append] at ho
  simp [hc] at ho

/-! ## What abbreviating does -/

/-- From left to right, each operator and each quantity gets its code, and all other characters stay. -/
inductive Replaces : List Char → List Char → Prop
  | nil : Replaces [] []
  | operator {cs rest out : List Char} {o : Operator} {c : Char} : operatorAt? cs = some (o, c, rest) →
      Replaces rest out → Replaces cs (o.code.toList ++ c :: out)
  | quantity {cs rest out : List Char} {q : Quantity} : operatorAt? cs = none → quantityAt? cs = some (q, rest) →
      Replaces rest out → Replaces cs (q.code.toList ++ out)
  | keep {c : Char} {rest out : List Char} : operatorAt? (c :: rest) = none → quantityAt? (c :: rest) = none →
      Replaces rest out → Replaces (c :: rest) (c :: out)

/-- Each operator and quantity by its code, and no operator among the other characters. -/
inductive Abbreviates : List Char → List Char → Prop
  | nil : Abbreviates [] []
  | operator {o : Operator} {c : Char} {rest out : List Char} : isSeparator c = true → Abbreviates rest out →
      Abbreviates (o.symbol.toList ++ c :: rest) (o.code.toList ++ c :: out)
  | quantity {q : Quantity} {rest out : List Char} : Abbreviates rest out →
      Abbreviates (q.name.toList ++ rest) (q.code.toList ++ out)
  | keep {c : Char} {rest out : List Char} : operatorAt? (c :: rest) = none → Abbreviates rest out →
      Abbreviates (c :: rest) (c :: out)

theorem Replaces.abbreviates {cs out : List Char} (h : Replaces cs out) : Abbreviates cs out := by
  induction h with
  | nil => exact .nil
  | operator ho _ ih =>
    obtain ⟨rfl, hc⟩ := append_of_operatorAt? ho
    exact .operator hc ih
  | quantity _ hq _ ih =>
    rw [append_of_quantityAt? hq]
    exact .quantity ih
  | keep ho _ _ ih => exact .keep ho ih

theorem NoReference.of_append : ∀ {u v : List Char}, NoReference (u ++ v) → NoReference v
  | [], _, h => h
  | _ :: _, _, h => of_append h.2

/-- If only underscores come after a dollar sign, no name does. -/
theorem Quantity.not_afterDollar (q : Quantity) {afterDollar : Bool} {rest : List Char}
    (hd : afterDollar = true → ∀ c ∈ q.name.toList ++ rest, c = '_') : afterDollar = false := by
  obtain ⟨c, tail, hname, hlower⟩ := q.name_spec
  cases afterDollar with
  | false => rfl
  | true =>
    have hc : c = '_' := hd rfl c (by rw [hname]; exact List.mem_append_left rest (List.mem_cons_self ..))
    exact absurd hc (ne_of_isLower hlower (by decide))

/-- A name after a dollar sign would be a reference, so all quantities get their codes. -/
theorem replaces_abbreviate {afterDollar : Bool} {cs : List Char} (h : NoReference cs)
    (hd : afterDollar = true → ∀ c ∈ cs, c = '_') : Replaces cs (abbreviate afterDollar cs) := by
  induction afterDollar, cs using abbreviate.induct with
  | case1 afterDollar cs o c rest ho _ ih =>
    rw [abbreviate_of_operatorAt? afterDollar ho]
    rw [(append_of_operatorAt? ho).1] at h
    exact .operator ho (ih h.of_append.2 (by simp))
  | case2 afterDollar cs ho q rest hq _ ih =>
    rw [abbreviate_of_quantityAt? afterDollar ho hq]
    rw [append_of_quantityAt? hq] at h hd
    rw [q.not_afterDollar hd]
    exact .quantity ho hq (ih h.of_append (by simp))
  | case3 afterDollar _ _ => rw [abbreviate_nil]; exact .nil
  | case4 afterDollar c rest ho hq ih =>
    rw [abbreviate_cons afterDollar ho hq]
    refine .keep ho hq (ih h.2 ?_)
    intro hc
    exact h.1 (beq_iff_eq.mp hc)

theorem replaces_text {cs : List Char} (h : NoReference cs) : Replaces cs (abbreviate false cs) :=
  replaces_abbreviate h (by simp)

theorem abbreviates_text {cs : List Char} (h : NoReference cs) : Abbreviates cs (abbreviate false cs) :=
  (replaces_text h).abbreviates

namespace Abbreviates
variable {cs out : List Char}

theorem mem_or_isLower (h : Abbreviates cs out) {d : Char} (hd : d ∈ out) : d ∈ cs ∨ d.isLower = true := by
  induction h with
  | nil => exact .inl hd
  | @operator o c rest out _ _ ih =>
    rcases List.mem_append.mp hd with hd | hd
    · exact .inr (o.code_spec.2 d hd)
    rcases List.mem_cons.mp hd with rfl | hd
    · simp
    · rcases ih hd with hd | hd
      · simp [hd]
      · exact .inr hd
  | @quantity q rest out _ ih =>
    rcases List.mem_append.mp hd with hd | hd
    · exact .inr (q.code_spec.2 d hd)
    · exact (ih hd).imp_left (List.mem_append_right _)
  | @keep c rest out _ _ ih =>
    rcases List.mem_cons.mp hd with rfl | hd
    · exact .inl (List.mem_cons_self ..)
    · exact (ih hd).imp_left (List.mem_cons_of_mem c)

theorem ne_nil (h : Abbreviates cs out) (hne : cs ≠ []) : out ≠ [] := by
  cases h with
  | nil => exact hne
  | operator _ _ => simp
  | @quantity q _ _ _ => simp [q.code_spec.1]
  | keep _ _ => exact List.cons_ne_nil _ _

/-- What begins the abbreviated text and has no letters began the text. -/
theorem prefix_back (h : Abbreviates cs out) : ∀ {p : List Char}, (∀ c ∈ p, c.isLower = false) →
    p <+: out → p <+: cs := by
  have hcode : ∀ {code p v : List Char}, code ≠ [] → (∀ c ∈ code, c.isLower = true) →
      (∀ c ∈ p, c.isLower = false) → p <+: code ++ v → p = [] := by
    intro code p v hne hcode hp hpre
    cases p with
    | nil => rfl
    | cons a p =>
      obtain ⟨c, code, rfl⟩ := List.exists_cons_of_ne_nil hne
      rw [List.cons_append, List.cons_prefix_cons] at hpre
      exact absurd hpre.1.symm (ne_of_isLower (hcode c (List.mem_cons_self ..)) (hp a (List.mem_cons_self ..)))
  induction h with
  | nil => exact fun _ hpre => hpre
  | @operator o c rest out _ _ _ =>
    intro p hp hpre
    rw [hcode o.code_spec.1 o.code_spec.2 hp hpre]
    exact List.nil_prefix
  | @quantity q rest out _ _ =>
    intro p hp hpre
    rw [hcode q.code_spec.1 q.code_spec.2 hp hpre]
    exact List.nil_prefix
  | @keep c rest out _ _ ih =>
    intro p hp hpre
    cases p with
    | nil => exact List.nil_prefix
    | cons a p =>
      rw [List.cons_prefix_cons] at hpre ⊢
      exact ⟨hpre.1, ih (fun d hd => hp d (List.mem_cons_of_mem a hd)) hpre.2⟩

theorem head?_iff (h : Abbreviates cs out) : out.head? = some '_' ↔ cs.head? = some '_' := by
  constructor
  · intro ho
    obtain ⟨rest, rfl⟩ := List.head?_eq_some_iff.mp ho
    have hpre : ['_'] <+: cs := h.prefix_back (List.forall_mem_singleton.mpr (by decide)) ⟨rest, rfl⟩
    obtain ⟨tail, rfl⟩ := hpre
    rfl
  · intro hc
    cases h with
    | nil => exact hc
    | @operator o c rest out _ _ =>
      obtain ⟨d, tail, hs⟩ := List.exists_cons_of_ne_nil o.symbol_spec.1
      rw [hs] at hc
      cases hc
      have hd := (o.symbol_spec.2 '_' (by rw [hs]; exact List.mem_cons_self ..)).2.1
      exact absurd hd (by decide)
    | @quantity q rest out _ =>
      obtain ⟨d, tail, hn, hd⟩ := q.name_spec
      rw [hn] at hc
      cases hc
      exact absurd hd (by decide)
    | keep _ _ => exact hc

/-- No symbol is left in front of an underscore. -/
theorem no_symbol_before_underscore (h : Abbreviates cs out) (o : Operator) :
    ¬o.symbol.toList ++ ['_'] <:+: out := by
  have hspec := o.symbol_spec
  obtain ⟨a, p, hs⟩ := List.exists_cons_of_ne_nil hspec.1
  have ha := hspec.2 a (by rw [hs]; exact List.mem_cons_self ..)
  rw [hs, List.cons_append]
  -- the symbol cannot begin in a code, so an occurrence lies behind it
  have hskip : ∀ {u v : List Char}, a ∉ u → a :: (p ++ ['_']) <:+: u ++ v → a :: (p ++ ['_']) <:+: v := by
    intro u v hu hin
    induction u with
    | nil => exact hin
    | cons c u ih =>
      rw [List.mem_cons, not_or] at hu
      rcases List.infix_cons_iff.mp hin with hpre | hin
      · exact absurd (List.cons_prefix_cons.mp hpre).1 hu.1
      · exact ih hu.2 hin
  induction h with
  | nil => simp
  | @operator o' c rest out hc _ ih =>
    intro hin
    have hac : a ∉ [c] := by
      rw [List.mem_singleton]
      rintro rfl
      rw [hc] at ha
      exact absurd ha.2.1 (by decide)
    exact ih (hskip hac (hskip (not_mem_of_isLower o'.code_spec.2 ha.1) hin))
  | @quantity q rest out _ ih =>
    intro hin
    exact ih (hskip (not_mem_of_isLower q.code_spec.2 ha.1) hin)
  | @keep c rest out hnone hr ih =>
    intro hin
    rcases List.infix_cons_iff.mp hin with hpre | hin
    · -- one that begins with a character that was kept was there before, and would have been replaced
      have hp : ∀ d ∈ a :: (p ++ ['_']), d.isLower = false := by
        intro d hd
        rw [← List.cons_append, ← hs, List.mem_append, List.mem_singleton] at hd
        rcases hd with hd | rfl
        · exact (hspec.2 d hd).1
        · decide
      obtain ⟨tail, htail⟩ := (keep hnone hr).prefix_back hp hpre
      rw [← List.cons_append, ← hs, List.append_assoc] at htail
      rw [← htail] at hnone
      exact operatorAt?_ne_none (by decide) hnone
    · exact ih hin

theorem dollar_not_mem (h : Abbreviates cs out) (hd : '$' ∉ cs) : '$' ∉ out := by
  intro hm
  rcases h.mem_or_isLower hm with hm | hl
  · exact hd hm
  · exact absurd hl (by decide)

end Abbreviates

theorem NoReference.append : ∀ {u v : List Char}, '$' ∉ u → NoReference v → NoReference (u ++ v)
  | [], _, _, hv => hv
  | c :: u, v, hu, hv => by
    rw [List.mem_cons, not_or] at hu
    exact ⟨fun hc => absurd hc.symm hu.1, NoReference.append hu.2 hv⟩

namespace Abbreviates
variable {cs out : List Char}

theorem forall_underscore (h : Abbreviates cs out) (hc : ∀ c ∈ cs, c = '_') : ∀ c ∈ out, c = '_' := by
  induction h with
  | nil => exact hc
  | @operator o c rest out _ _ _ =>
    obtain ⟨d, hd⟩ := List.exists_mem_of_ne_nil _ o.symbol_spec.1
    have hne := (o.symbol_spec.2 d hd).2.1
    rw [hc d (List.mem_append_left _ hd)] at hne
    exact absurd hne (by decide)
  | @quantity q rest out _ _ =>
    obtain ⟨d, tail, hn, hd⟩ := q.name_spec
    rw [hc d (by rw [hn]; exact List.mem_cons_self ..)] at hd
    exact absurd hd (by decide)
  | @keep c rest out _ _ ih =>
    rw [List.forall_mem_cons] at hc ⊢
    exact ⟨hc.1, ih hc.2⟩

theorem noReference (h : Abbreviates cs out) (hn : NoReference cs) : NoReference out := by
  induction h with
  | nil => exact hn
  | @operator o c rest out hc _ ih =>
    have hrest := hn.of_append
    refine NoReference.append (not_mem_of_isLower o.code_spec.2 (by decide)) ⟨?_, ih hrest.2⟩
    rintro rfl
    exact absurd hc (by decide)
  | @quantity q rest out _ ih =>
    exact NoReference.append (not_mem_of_isLower q.code_spec.2 (by decide)) (ih hn.of_append)
  | @keep c rest out _ hr ih => exact ⟨fun hc => hr.forall_underscore (hn.1 hc), ih hn.2⟩

end Abbreviates

/-! ## Single underscores -/

/-- No two underscores stand side by side. -/
def SingleUnderscores (cs : List Char) : Prop := cs.IsChain fun c d => c = '_' → d ≠ '_'

theorem SingleUnderscores.prepend : ∀ {u v : List Char}, '_' ∉ u → SingleUnderscores v →
    SingleUnderscores (u ++ v)
  | [], _, _, hv => hv
  | c :: u, v, hu, hv => by
    rw [List.mem_cons, not_or] at hu
    refine (SingleUnderscores.prepend hu.2 hv).cons ?_
    intro d _ hc
    exact absurd hc.symm hu.1

theorem Abbreviates.singleUnderscores {cs out : List Char} (h : Abbreviates cs out) (hs : SingleUnderscores cs) :
    SingleUnderscores out := by
  have hcons : ∀ {c : Char} {rest out : List Char}, Abbreviates rest out → SingleUnderscores (c :: rest) →
      (SingleUnderscores rest → SingleUnderscores out) → SingleUnderscores (c :: out) := by
    intro c rest out hr hs ih
    obtain ⟨hhead, htail⟩ := List.isChain_cons.mp hs
    refine List.isChain_cons.mpr ⟨?_, ih htail⟩
    intro d hd hc he
    subst he
    exact hhead '_' (hr.head?_iff.mp hd) hc rfl
  induction h with
  | nil => exact hs
  | @operator o c rest out _ hr ih =>
    have hrest := hcons hr hs.right_of_append ih
    exact SingleUnderscores.prepend (not_mem_of_isLower o.code_spec.2 (by decide)) hrest
  | @quantity q rest out _ ih =>
    exact SingleUnderscores.prepend (not_mem_of_isLower q.code_spec.2 (by decide)) (ih hs.right_of_append)
  | @keep c rest out _ hr ih => exact hcons hr hs ih

end DeliveryPath
