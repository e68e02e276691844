import Mathlib.Data.List.TakeWhile
import DeliveryPath.Expression.Normalize

/-!
# References to user variables in a text

The pieces of a text are its references from left to right and the stretches between them. They are the only
way to part a text so that no reference begins in a stretch and each goes up to the next underscore or the end
(`Partition.eq_pieces`).
-/

namespace DeliveryPath

/-! ## One reference -/

/-- A dollar sign, any underscores, and a name without underscores. -/
def IsReference (cs : List Char) : Prop :=
  ∃ lead name, cs = '$' :: (lead ++ name) ∧ (∀ c ∈ lead, c = '_') ∧ name ≠ [] ∧ '_' ∉ name

theorem takeWhile_dropWhile_append {p : Char → Bool} {u v : List Char} (hu : ∀ c ∈ u, p c = true)
    (hv : ∀ c ∈ v.head?, p c = false) : (u ++ v).takeWhile p = u ∧ (u ++ v).dropWhile p = v := by
  rw [List.takeWhile_append_of_pos hu, List.dropWhile_append_of_pos hu]
  cases v with
  | nil => simp
  | cons c v =>
    have hc : p c = false := hv c rfl
    rw [List.takeWhile_cons_of_neg (by simp [hc]), List.dropWhile_cons_of_neg (by simp [hc])]
    simp

theorem name_ne_nil {cs : List Char} (h : cs.dropWhile (· == '_') ≠ []) :
    (cs.dropWhile (· == '_')).takeWhile (· != '_') ≠ [] := by
  obtain ⟨c, rest, hname⟩ := List.exists_cons_of_ne_nil h
  have hc := List.head?_dropWhile_not (· == '_') cs
  rw [hname] at hc ⊢
  have hc : (c == '_') = false := hc
  rw [List.takeWhile_cons_of_pos (by simp [bne, hc])]
  exact List.cons_ne_nil c _

theorem referenceAt?_eq_some_iff {cs reference rest : List Char} : referenceAt? cs = some (reference, rest) ↔
    cs = reference ++ rest ∧ IsReference reference ∧ ∀ c ∈ rest.head?, c = '_' := by
  constructor
  · intro h
    refine ⟨(append_of_referenceAt? h).1, ?_⟩
    unfold referenceAt? at h
    split at h
    · next tail =>
      by_cases hn : tail.dropWhile (· == '_') = []
      · simp [hn] at h
      · simp only [List.isEmpty_iff, hn, if_false, Option.some.injEq, Prod.mk.injEq] at h
        obtain ⟨rfl, rfl⟩ := h
        refine ⟨⟨_, _, List.cons_append, ?_, name_ne_nil hn, ?_⟩, ?_⟩
        · intro c hc
          exact beq_iff_eq.mp (List.all_eq_true.mp List.all_takeWhile c hc)
        · intro hc
          simpa using List.all_eq_true.mp List.all_takeWhile '_' hc
        · intro c hc
          have hhead := List.head?_dropWhile_not (· != '_') (tail.dropWhile (· == '_'))
          rw [hc] at hhead
          simpa using hhead
    · cases h
  · rintro ⟨rfl, ⟨lead, name, rfl, hlead, hne, hname⟩, hrest⟩
    have hhead : ∀ c ∈ (name ++ rest).head?, (c == '_') = false := by
      intro c hc
      obtain ⟨d, tail, rfl⟩ := List.exists_cons_of_ne_nil hne
      cases hc
      exact beq_eq_false_iff_ne.mpr fun he => hname (by simp [he])
    have hsplit := takeWhile_dropWhile_append (p := (· == '_')) (fun c hc => beq_iff_eq.mpr (hlead c hc)) hhead
    have hsplit' := takeWhile_dropWhile_append (p := (· != '_')) (u := name) (v := rest)
      (fun c hc => bne_iff_ne.mpr fun he => hname (he ▸ hc)) fun c hc => by simp [hrest c hc]
    rw [List.cons_append, List.append_assoc, referenceAt?]
    simp [hsplit.1, hsplit.2, hsplit'.1, hsplit'.2, hne]

theorem referenceAt?_cons_eq_none_iff {c : Char} {rest : List Char} :
    referenceAt? (c :: rest) = none ↔ (c = '$' → ∀ d ∈ rest, d = '_') := by
  by_cases hc : c = '$'
  · subst hc
    simp [referenceAt?, List.dropWhile_eq_nil_iff]
  · simp [referenceAt?, hc]

/-- No reference begins in the text: after a dollar sign there are underscores only. -/
def NoReference : List Char → Prop
  | [] => True
  | c :: rest => (c = '$' → ∀ d ∈ rest, d = '_') ∧ NoReference rest

theorem noReference_of_not_mem : ∀ {cs : List Char}, '$' ∉ cs → NoReference cs
  | [], _ => trivial
  | c :: cs, h => by
    rw [List.mem_cons, not_or] at h
    exact ⟨fun hc => absurd hc.symm h.1, noReference_of_not_mem h.2⟩

/-! ## All references -/

/-- The text is parted into its references from left to right and the stretches between them. -/
inductive Partition : List Char → List Piece → Prop
  | nil : Partition [] []
  | last {cs} : cs ≠ [] → NoReference cs → Partition cs [.text cs]
  | reference {r rest ps} : IsReference r → (∀ c ∈ rest.head?, c = '_') → Partition rest ps →
      Partition (r ++ rest) (.reference r :: ps)
  | text {x cs r ps} : x ≠ [] → '$' ∉ x → Partition cs (.reference r :: ps) →
      Partition (x ++ cs) (.text x :: .reference r :: ps)

theorem Partition.dollar_mem {cs r : List Char} {ps : List Piece} (h : Partition cs (.reference r :: ps)) :
    '$' ∈ cs := by
  cases h with
  | reference hr _ _ =>
    obtain ⟨lead, name, rfl, -⟩ := hr
    simp

/-- A character at which no reference begins goes to the first stretch. -/
theorem Partition.cons {c : Char} {cs : List Char} {ps : List Piece} (h : Partition cs ps)
    (hc : c = '$' → ∀ d ∈ cs, d = '_') : Partition (c :: cs) (Piece.consText c ps) := by
  -- a reference further on holds a dollar sign, so `c` is none
  have hne : ∀ {r : List Char} {qs : List Piece}, Partition cs (.reference r :: qs) → '$' ≠ c := by
    intro r qs hp hd
    exact absurd (hc hd.symm _ hp.dollar_mem) (by decide)
  cases h with
  | nil => exact .last (List.cons_ne_nil c []) ⟨by simp, trivial⟩
  | last _ hn => exact .last (List.cons_ne_nil c cs) ⟨hc, hn⟩
  | @reference r rest ps hr hrest hp =>
    have href := Partition.reference hr hrest hp
    refine .text (x := [c]) (List.cons_ne_nil c []) ?_ href
    rw [List.mem_singleton]
    exact hne href
  | @text x cs r ps hx hd hp =>
    refine .text (x := c :: x) (List.cons_ne_nil c x) ?_ hp
    rw [List.mem_cons, not_or]
    refine ⟨fun he => ?_, hd⟩
    exact absurd (hc he.symm _ (List.mem_append_right x hp.dollar_mem)) (by decide)

theorem partition_pieces (cs : List Char) : Partition cs (pieces cs) := by
  induction cs using pieces.induct with
  | case1 cs r rest h _ ih =>
    rw [pieces_of_referenceAt? h]
    obtain ⟨rfl, hr, hrest⟩ := referenceAt?_eq_some_iff.mp h
    exact .reference hr hrest ih
  | case2 h => rw [pieces_nil]; exact .nil
  | case3 c rest h ih =>
    rw [pieces_cons h]
    exact ih.cons (referenceAt?_cons_eq_none_iff.mp h)

theorem pieces_of_noReference : ∀ {cs : List Char}, cs ≠ [] → NoReference cs → pieces cs = [.text cs]
  | [], h, _ => absurd rfl h
  | [c], _, h => by
    rw [pieces_cons (referenceAt?_cons_eq_none_iff.mpr h.1), pieces_nil]; rfl
  | c :: d :: cs, _, h => by
    rw [pieces_cons (referenceAt?_cons_eq_none_iff.mpr h.1), pieces_of_noReference (List.cons_ne_nil d cs) h.2]; rfl

theorem pieces_append_of_not_mem {cs r : List Char} {ps : List Piece} (h : pieces cs = .reference r :: ps) :
    ∀ {x : List Char}, x ≠ [] → '$' ∉ x → pieces (x ++ cs) = .text x :: .reference r :: ps
  | [], hx, _ => absurd rfl hx
  | [c], _, hd => by
    rw [List.mem_singleton] at hd
    rw [List.singleton_append, pieces_cons (referenceAt?_cons_eq_none_iff.mpr fun hc => absurd hc.symm hd), h]; rfl
  | c :: d :: x, _, hd => by
    rw [List.mem_cons, not_or] at hd
    rw [List.cons_append, pieces_cons (referenceAt?_cons_eq_none_iff.mpr fun hc => absurd hc.symm hd.1),
      pieces_append_of_not_mem h (List.cons_ne_nil d x) hd.2]; rfl

theorem Partition.eq_pieces {cs : List Char} {ps : List Piece} (h : Partition cs ps) : pieces cs = ps := by
  induction h with
  | nil => exact pieces_nil
  | last hne hn => exact pieces_of_noReference hne hn
  | reference hr hrest _ ih =>
    rw [pieces_of_referenceAt? (referenceAt?_eq_some_iff.mpr ⟨rfl, hr, hrest⟩), ih]
  | text hx hd _ ih => exact pieces_append_of_not_mem ih hx hd

theorem Partition.flatMap_chars {cs : List Char} {ps : List Piece} (h : Partition cs ps) :
    ps.flatMap Piece.chars = cs := by
  induction h with
  | nil => rfl
  | last _ _ => exact List.append_nil _
  | reference _ _ _ ih => rw [List.flatMap_cons, ih]; rfl
  | text _ _ _ ih => rw [List.flatMap_cons, ih]; rfl

end DeliveryPath
