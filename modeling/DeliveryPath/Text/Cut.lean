/-!
# Cutting text

Texts are read from the front, as lists of characters. `dropFront?` takes a known beginning off a text, and
`cut?` splits a text at the first place where a mark stands.
-/

namespace DeliveryPath

/-- What follows `front` in a text that begins with it. -/
def dropFront? : List Char → List Char → Option (List Char)
  | [], cs => some cs
  | _ :: _, [] => none
  | p :: ps, c :: cs => if p = c then dropFront? ps cs else none

theorem dropFront?_append (ps cs : List Char) : dropFront? ps (ps ++ cs) = some cs := by
  induction ps with
  | nil => rfl
  | cons p ps ih => simp [dropFront?, ih]

theorem eq_append_of_dropFront? : ∀ {ps cs rest : List Char}, dropFront? ps cs = some rest → cs = ps ++ rest
  | [], _, _, h => by simpa [dropFront?] using h
  | _ :: _, [], _, h => by simp [dropFront?] at h
  | p :: ps, c :: cs, rest, h => by
    by_cases hpc : p = c
    · simp only [dropFront?, hpc, if_true] at h
      rw [hpc, eq_append_of_dropFront? h, List.cons_append]
    · simp [dropFront?, hpc] at h

theorem dropFront?_eq_some_iff {ps cs rest : List Char} : dropFront? ps cs = some rest ↔ cs = ps ++ rest :=
  ⟨eq_append_of_dropFront?, fun h => h ▸ dropFront?_append ps rest⟩

/-- The text before and the text after the first occurrence of `mark`. -/
def cut? (mark : List Char) : List Char → Option (List Char × List Char)
  | [] => (dropFront? mark []).map ([], ·)
  | c :: cs =>
    match dropFront? mark (c :: cs) with
    | some rest => some ([], rest)
    | none => (cut? mark cs).map fun sides => (c :: sides.1, sides.2)

theorem eq_append_of_cut? {mark : List Char} : ∀ {cs before after : List Char},
    cut? mark cs = some (before, after) → cs = before ++ mark ++ after
  | [], before, after, h => by
    simp only [cut?, Option.map_eq_some_iff, Prod.mk.injEq] at h
    obtain ⟨rest, hr, rfl, rfl⟩ := h
    simpa using eq_append_of_dropFront? hr
  | c :: cs, before, after, h => by
    unfold cut? at h
    split at h
    · next rest hr =>
      simp only [Option.some.injEq, Prod.mk.injEq] at h
      obtain ⟨rfl, rfl⟩ := h
      simpa using eq_append_of_dropFront? hr
    · obtain ⟨sides, hs, h⟩ := Option.map_eq_some_iff.1 h
      simp only [Prod.mk.injEq] at h
      obtain ⟨rfl, rfl⟩ := h
      simp [eq_append_of_cut? hs]

theorem cut?_cons {mark : List Char} {c : Char} {cs : List Char} (h : dropFront? mark (c :: cs) = none) :
    cut? mark (c :: cs) = (cut? mark cs).map fun sides => (c :: sides.1, sides.2) := by
  rw [cut?, h]

/-- A text without the first character of a mark goes before the cut. -/
theorem cut?_append_of_not_mem {m : Char} (ms cs : List Char) : ∀ {u : List Char}, m ∉ u →
    cut? (m :: ms) (u ++ cs) = (cut? (m :: ms) cs).map fun sides => (u ++ sides.1, sides.2)
  | [], _ => Option.map_id'.symm
  | c :: u, h => by
    rw [List.mem_cons, not_or] at h
    have hfront : dropFront? (m :: ms) (c :: (u ++ cs)) = none := if_neg h.1
    rw [List.cons_append, cut?_cons hfront, cut?_append_of_not_mem ms cs h.2, Option.map_map]
    rfl

theorem cut?_append (m : Char) (ms cs : List Char) : cut? (m :: ms) ((m :: ms) ++ cs) = some ([], cs) := by
  have hfront : dropFront? (m :: ms) (m :: (ms ++ cs)) = some cs := dropFront?_append (m :: ms) cs
  rw [List.cons_append, cut?, hfront]

/-- There is a cut if the mark occurs. -/
theorem isSome_cut?_iff {mark : List Char} : ∀ {cs : List Char}, (cut? mark cs).isSome = true ↔ mark <:+: cs
  | [] => by
    rw [cut?, Option.isSome_map, List.infix_nil]
    cases mark <;> simp [dropFront?]
  | c :: cs => by
    rw [List.infix_cons_iff, ← @isSome_cut?_iff mark cs]
    cases hfront : dropFront? mark (c :: cs) with
    | some rest =>
      have hbegins : mark <+: c :: cs := ⟨rest, (dropFront?_eq_some_iff.mp hfront).symm⟩
      rw [cut?, hfront]
      simp [hbegins]
    | none =>
      have hbegins : ¬mark <+: c :: cs := by
        rintro ⟨rest, heq⟩
        rw [dropFront?_eq_some_iff.mpr heq.symm] at hfront
        cases hfront
      rw [cut?_cons hfront, Option.isSome_map, or_iff_right hbegins]

/-- The cut at a character is at its first occurrence. -/
theorem cut?_eq_some_iff {m : Char} {cs before after : List Char} :
    cut? [m] cs = some (before, after) ↔ cs = before ++ m :: after ∧ m ∉ before := by
  have hcut : ∀ rest, cut? [m] (m :: rest) = some ([], rest) := cut?_append m []
  constructor
  · intro h
    refine ⟨by simpa using eq_append_of_cut? h, fun hm => ?_⟩
    induction cs generalizing before with
    | nil => cases h
    | cons c cs ih =>
      by_cases hc : m = c
      · rw [← hc, hcut] at h
        cases h
        cases hm
      · have hfront : dropFront? [m] (c :: cs) = none := if_neg hc
        rw [cut?_cons hfront] at h
        obtain ⟨⟨own, rest⟩, hs, h⟩ := Option.map_eq_some_iff.mp h
        cases h
        exact ih hs ((List.mem_cons.mp hm).resolve_left hc)
  · rintro ⟨rfl, hm⟩
    rw [cut?_append_of_not_mem [] _ hm, hcut, Option.map_some, List.append_nil]

/-- An empty text counts as no text at all. -/
def given (text : Option String) : Option String := text.filter (· ≠ "")

theorem given_eq_some_iff {text : Option String} {s : String} :
    given text = some s ↔ text = some s ∧ s ≠ "" := by
  simp [given, Option.filter_eq_some_iff]

end DeliveryPath
