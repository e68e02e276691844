import DeliveryPath.Proofs.CodedText
import DeliveryPath.Proofs.LoneParameter
import DeliveryPath.Transformation.Setters

/-!
# Named transformations

A path refers to named transformations by their names, joined by dots, and makes this compact like an expression.
Nothing that is replaced there holds a dot, so whether something is replaced can be seen in each name by itself
(`inert_intercalate_iff`).
-/

namespace DeliveryPath

/-! ## Texts with nothing to replace -/

/-- What the compact form has something else for. -/
inductive Replaced : List Char → Prop
  | blank : Replaced [' ']
  | underscores : Replaced ['_', '_']
  | symbol (o : Operator) : Replaced (o.symbol.toList ++ ['_'])
  | name {q : Quantity} : q ≠ .tags → Replaced q.name.toList

theorem Replaced.ne_nil {pattern : List Char} (h : Replaced pattern) : pattern ≠ [] := by
  cases h with
  | blank => simp
  | underscores => simp
  | symbol o => simp
  | @name q _ =>
    obtain ⟨c, cs, hname, -⟩ := q.name_spec
    rw [hname]
    exact List.cons_ne_nil c cs

theorem Replaced.dot_not_mem {pattern : List Char} (h : Replaced pattern) : '.' ∉ pattern := by
  cases h with
  | blank => decide
  | underscores => decide
  | symbol o => cases o <;> decide
  | @name q _ => cases q <;> decide

def Inert (cs : List Char) : Prop := ∀ pattern, Replaced pattern → ¬pattern <:+: cs

theorem inert_iff {cs : List Char} : Inert cs ↔ ' ' ∉ cs ∧ ¬['_', '_'] <:+: cs ∧ Coded cs := by
  constructor
  · intro h
    refine ⟨?_, h _ .underscores, fun o => h _ (.symbol o), fun q hq => h _ (.name hq)⟩
    rw [← List.singleton_infix_iff]
    exact h _ .blank
  · rintro ⟨hblank, hunderscores, hcoded⟩ pattern hpattern
    cases hpattern with
    | blank => rwa [List.singleton_infix_iff]
    | underscores => exact hunderscores
    | symbol o => exact hcoded.symbol o
    | name hq => exact hcoded.name _ hq

theorem compact_of_inert {cs : List Char} (h : Inert cs) : compact cs = cs := by
  obtain ⟨hblank, hunderscores, hcoded⟩ := inert_iff.mp h
  have hp := partition_pieces cs
  rw [compact_eq, collapse_eq_self hblank (singleUnderscores_iff.mpr hunderscores)]
  exact hp.flatMap_compact_of_coded hblank fun x hx => hcoded.of_infix (hp.infix_of_text hx)

theorem translate_of_not_mem {cs : List Char} (hd : '$' ∉ cs) : translate cs = abbreviate false cs := by
  cases cs with
  | nil => exact translate_nil.trans (abbreviate_nil false).symm
  | cons c cs =>
    rw [translate, pieces_of_noReference (List.cons_ne_nil c cs) (noReference_of_not_mem hd), List.flatMap_singleton]
    rfl

/-- Without references, only a text with nothing to replace stays. -/
theorem inert_of_compact_eq_self {cs : List Char} (hd : '$' ∉ cs) (h : compact cs = cs) : Inert cs := by
  have hcollapsed := partition_pieces (collapse cs)
  -- separators are collapsed in the compact form, so they were in the text
  have hblank : ' ' ∉ cs := by
    rw [← h]
    exact hcollapsed.space_not_mem_flatMap_compact (space_not_mem_collapse cs)
  have hsingle : SingleUnderscores cs := by
    rw [← h]
    exact hcollapsed.singleUnderscores_flatMap_compact (singleUnderscores_collapse cs)
  rw [compact_eq, collapse_eq_self hblank hsingle, translate_of_not_mem hd] at h
  have hcoded := (abbreviate_eq_self_iff (noReference_of_not_mem hd) hblank).mp h
  exact inert_iff.mpr ⟨hblank, singleUnderscores_iff.mp hsingle, hcoded⟩

/-! ## Names joined by dots -/

theorem infix_append_cons_iff {pattern v : List Char} {d : Char} (hd : d ∉ pattern) (hne : pattern ≠ []) :
    ∀ {u : List Char}, pattern <:+: u ++ d :: v ↔ pattern <:+: u ∨ pattern <:+: v
  | [] => by
    have hfront : ¬pattern <+: d :: v := by
      intro h
      obtain ⟨c, cs, rfl⟩ := List.exists_cons_of_ne_nil hne
      exact hd ((List.cons_prefix_cons.mp h).1 ▸ List.mem_cons_self ..)
    simp [List.infix_cons_iff, hfront, hne]
  | c :: u => by
    have hfront : pattern <+: c :: (u ++ d :: v) ↔ pattern <+: c :: u := by
      constructor
      · intro h
        rcases List.prefix_or_prefix_of_prefix h (List.prefix_append (c :: u) (d :: v)) with h' | ⟨w, rfl⟩
        · exact h'
        · cases w with
          | nil => simp
          | cons e w =>
            rw [← List.cons_append, List.prefix_append_right_inj, List.cons_prefix_cons] at h
            exact absurd (by simp [h.1]) hd
      · intro h
        exact h.trans (List.prefix_append (c :: u) (d :: v))
    rw [List.cons_append, List.infix_cons_iff, List.infix_cons_iff, hfront, infix_append_cons_iff hd hne, or_assoc]

theorem infix_intercalate_iff {pattern : List Char} (hd : '.' ∉ pattern) (hne : pattern ≠ []) :
    ∀ {names : List String}, pattern <:+: (".".intercalate names).toList ↔ ∃ name ∈ names, pattern <:+: name.toList
  | [] => by simp [hne]
  | [name] => by simp
  | name :: next :: names => by
    have hjoined : (".".intercalate (name :: next :: names)).toList =
        name.toList ++ '.' :: (".".intercalate (next :: names)).toList := by
      rw [String.intercalate_cons_cons]
      simp
    rw [hjoined, infix_append_cons_iff hd hne, infix_intercalate_iff hd hne]
    exact (List.exists_mem_cons_iff (pattern <:+: String.toList ·) name (next :: names)).symm

theorem inert_intercalate_iff {names : List String} :
    Inert (".".intercalate names).toList ↔ ∀ name ∈ names, Inert name.toList := by
  constructor
  · intro h name hname pattern hpattern hin
    exact h pattern hpattern ((infix_intercalate_iff hpattern.dot_not_mem hpattern.ne_nil).mpr ⟨name, hname, hin⟩)
  · intro h pattern hpattern hin
    obtain ⟨name, hname, hin⟩ := (infix_intercalate_iff hpattern.dot_not_mem hpattern.ne_nil).mp hin
    exact h name hname pattern hpattern hin

/-! ## In a path -/

namespace Transformation

theorem generate_setNamed {names : List String} {name : String} (hname : name ∈ names) (hne : name ≠ "") :
    (empty.setNamed names).generate = .ok ("t_" ++ normalize (".".intercalate names)) := by
  have hrender : (Value.list names).render = .ok (".".intercalate names) := rfl
  have hshows : (Segment.holding .named (.list names)).Shows .named (".".intercalate names) :=
    Segment.shows_holding_iff.mpr ⟨rfl, hrender, intercalate_ne_empty hne hname⟩
  have hresolved : (Segment.holding .named (.list names)).resolved? {} .named = some (".".intercalate names) :=
    Segment.text?_eq_some_iff.mpr hshows
  have hkey : ("t", Parameter.named) ∈ Parameter.core := by decide
  exact generate_holding hrender (by decide) (Segment.components_holding_core hkey hresolved)

/-- The path of a reference is made of the names, joined by dots and made compact. It holds them unchanged if nothing
is replaced in any of them; without dollar signs, only then. -/
theorem generate_named {names : List String} (hne : names ≠ []) (hnames : ∀ name ∈ names, name ≠ "") :
    (empty.setNamed names).generate = .ok ("t_" ++ normalize (".".intercalate names)) ∧
      ((∀ name ∈ names, Inert name.toList) →
        (empty.setNamed names).generate = .ok ("t_" ++ ".".intercalate names)) ∧
      ((∀ name ∈ names, '$' ∉ name.toList) →
        (empty.setNamed names).generate = .ok ("t_" ++ ".".intercalate names) → ∀ name ∈ names, Inert name.toList) := by
  obtain ⟨name, hname⟩ := List.exists_mem_of_ne_nil names hne
  have hpath := generate_setNamed hname (hnames name hname)
  refine ⟨hpath, ?_, ?_⟩
  · intro hinert
    have hsame : normalize (".".intercalate names) = ".".intercalate names := by
      rw [← String.toList_inj, toList_normalize]
      exact compact_of_inert (inert_intercalate_iff.mpr hinert)
    rw [hpath, hsame]
  · intro hdollar hkept
    rw [hpath, Except.ok.injEq, String.append_right_inj, ← String.toList_inj, toList_normalize] at hkept
    refine inert_intercalate_iff.mp (inert_of_compact_eq_self ?_ hkept)
    intro hmem
    rw [← List.singleton_infix_iff, infix_intercalate_iff (by decide) (List.cons_ne_nil _ _)] at hmem
    obtain ⟨name, hname, hin⟩ := hmem
    exact hdollar name hname ((List.singleton_infix_iff _ _).mp hin)

/-- A symbol with no underscore after it stays, and so do names that are no names of quantities. -/
theorem generate_named_media : (empty.setNamed ["media_lib", "v2-final"]).generate = .ok "t_media_lib.v2-final" ∧
    ∀ name ∈ ["media_lib", "v2-final"], Inert name.toList := by
  have hne : ∀ name ∈ ["media_lib", "v2-final"], name ≠ "" := by decide
  have hdollar : ∀ name ∈ ["media_lib", "v2-final"], '$' ∉ name.toList := by decide
  have hinert : ∀ name ∈ ["media_lib", "v2-final"], Inert name.toList := by
    have hsymbol : ∀ o ∈ Operator.all, ∀ name ∈ ["media_lib", "v2-final"],
        ¬o.symbol.toList ++ ['_'] <:+: name.toList := by decide
    have hquantity : ∀ q ∈ Quantity.all, ∀ name ∈ ["media_lib", "v2-final"], ¬q.name.toList <:+: name.toList := by
      decide
    intro name hname
    refine inert_iff.mpr ⟨?_, ?_, fun o => hsymbol o o.mem_all name hname, fun q _ => hquantity q q.mem_all name hname⟩
    · revert name; decide
    · revert name; decide
  obtain ⟨-, hkept, hback⟩ := generate_named (List.cons_ne_nil _ _) hne
  exact ⟨hkept hinert, hback hdollar (hkept hinert)⟩

/-- The name of a quantity does not stay. -/
theorem generate_named_width : ["width"] ≠ [] ∧ (∀ name ∈ ["width"], name ≠ "") ∧
    (empty.setNamed ["width"]).generate = .ok "t_w" ∧
    (empty.setNamed ["width"]).generate ≠ .ok ("t_" ++ ".".intercalate ["width"]) := by
  have hpath : (empty.setNamed ["width"]).generate = .ok "t_w" := by
    rw [generate_setNamed (List.mem_singleton_self "width") (by decide)]
    decide +kernel
  refine ⟨List.cons_ne_nil _ _, by decide, hpath, ?_⟩
  rw [hpath]
  decide +kernel

end Transformation

end DeliveryPath
