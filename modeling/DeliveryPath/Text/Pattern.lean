/-!
# Patterns

A pattern describes texts: characters of given classes one after the other, where a class may be repeated and a part
may be missing. A text is read from the front, and `rests` is what may be left of it after the pattern, in the order
of a search that takes as much as it can and gives back what it must.
-/

namespace DeliveryPath

inductive Pattern where
  /-- One character of a class. -/
  | one (among : Char → Bool)
  /-- One character of a class or more. -/
  | run (among : Char → Bool)
  | optional (p : Pattern)
  | seq (p q : Pattern)

namespace Pattern

/-- What may be left after a run; `shorter` is left after the runs that end before the text. -/
def restsOfRun (among : Char → Bool) (shorter : List (List Char)) : List Char → List (List Char)
  | [] => shorter
  | c :: cs => if among c then restsOfRun among (cs :: shorter) cs else shorter

def rests : Pattern → List Char → List (List Char)
  | one _, [] => []
  | one among, c :: cs => if among c then [cs] else []
  | run among, cs => restsOfRun among [] cs
  | optional p, cs => p.rests cs ++ [cs]
  | seq p q, cs => (p.rests cs).flatMap q.rests

/-- Whether the pattern describes the whole text. -/
def describes (p : Pattern) (cs : List Char) : Bool := (p.rests cs).any List.isEmpty

/-! ## The texts that a pattern describes -/

def Matches : Pattern → List Char → Prop
  | one among, cs => ∃ c, cs = [c] ∧ among c = true
  | run among, cs => cs ≠ [] ∧ ∀ c ∈ cs, among c = true
  | optional p, cs => cs = [] ∨ p.Matches cs
  | seq p q, cs => ∃ front back, cs = front ++ back ∧ p.Matches front ∧ q.Matches back

theorem matches_seq_assoc {p q r : Pattern} {cs : List Char} :
    (seq (seq p q) r).Matches cs ↔ (seq p (seq q r)).Matches cs := by
  constructor
  · rintro ⟨_, back, rfl, ⟨front, between, rfl, hp, hq⟩, hr⟩
    exact ⟨front, between ++ back, List.append_assoc .., hp, between, back, rfl, hq, hr⟩
  · rintro ⟨front, _, rfl, hp, between, back, rfl, hq, hr⟩
    exact ⟨front ++ between, back, (List.append_assoc ..).symm, ⟨front, between, rfl, hp, hq⟩, hr⟩

theorem mem_restsOfRun_iff {among : Char → Bool} {rest : List Char} : ∀ {cs : List Char} {shorter : List (List Char)},
    rest ∈ restsOfRun among shorter cs ↔
      rest ∈ shorter ∨ ∃ front, cs = front ++ rest ∧ front ≠ [] ∧ ∀ c ∈ front, among c = true
  | [], shorter => by
    rw [restsOfRun, iff_self_or]
    rintro ⟨front, hfront, hne, -⟩
    exact absurd (List.append_eq_nil_iff.mp hfront.symm).1 hne
  | c :: cs, shorter => by
    rw [restsOfRun]
    split
    · next hc =>
      rw [mem_restsOfRun_iff, List.mem_cons, or_comm (a := rest = cs), or_assoc]
      refine or_congr_right ⟨?_, ?_⟩
      · rintro (rfl | ⟨front, rfl, -, hall⟩)
        · exact ⟨[c], rfl, List.cons_ne_nil c [], List.forall_mem_singleton.mpr hc⟩
        · exact ⟨c :: front, rfl, List.cons_ne_nil c front, List.forall_mem_cons.mpr ⟨hc, hall⟩⟩
      · rintro ⟨front, heq, hne, hall⟩
        obtain ⟨d, front, rfl⟩ := List.exists_cons_of_ne_nil hne
        obtain ⟨rfl, rfl⟩ := List.cons.inj heq
        by_cases hfront : front = []
        · rw [hfront]; exact .inl rfl
        · exact .inr ⟨front, rfl, hfront, (List.forall_mem_cons.mp hall).2⟩
    · next hc =>
      rw [iff_self_or]
      rintro ⟨front, heq, hne, hall⟩
      obtain ⟨d, front, rfl⟩ := List.exists_cons_of_ne_nil hne
      obtain ⟨rfl, -⟩ := List.cons.inj heq
      exact absurd (hall c (List.mem_cons_self ..)) hc

/-- The rests are those of all ways to read the pattern at the front of the text. -/
theorem mem_rests_iff {rest : List Char} : ∀ {p : Pattern} {cs : List Char},
    rest ∈ p.rests cs ↔ ∃ front, cs = front ++ rest ∧ p.Matches front
  | one among, [] => by
    rw [rests]
    refine iff_of_false List.not_mem_nil ?_
    rintro ⟨front, hfront, c, rfl, -⟩
    cases hfront
  | one among, c :: cs => by
    rw [rests]
    constructor
    · intro h
      split at h
      · next hc => exact ⟨[c], by rw [List.mem_singleton.mp h]; rfl, c, rfl, hc⟩
      · cases h
    · rintro ⟨_, heq, d, rfl, hd⟩
      cases heq
      rw [if_pos hd]
      exact List.mem_singleton_self _
  | run among, cs => by
    rw [rests, mem_restsOfRun_iff]
    simp [Matches]
  | optional p, cs => by
    rw [rests, List.mem_append, List.mem_singleton, mem_rests_iff]
    constructor
    · rintro (⟨front, rfl, h⟩ | rfl)
      · exact ⟨front, rfl, .inr h⟩
      · exact ⟨[], rfl, .inl rfl⟩
    · rintro ⟨front, rfl, rfl | h⟩
      · exact .inr rfl
      · exact .inl ⟨front, rfl, h⟩
  | seq p q, cs => by
    rw [rests, List.mem_flatMap]
    constructor
    · rintro ⟨between, hp, hq⟩
      obtain ⟨front, rfl, hfront⟩ := mem_rests_iff.mp hp
      obtain ⟨back, rfl, hback⟩ := mem_rests_iff.mp hq
      exact ⟨front ++ back, (List.append_assoc ..).symm, front, back, rfl, hfront, hback⟩
    · rintro ⟨_, rfl, front, back, rfl, hfront, hback⟩
      have hp := mem_rests_iff.mpr ⟨front, List.append_assoc front back rest, hfront⟩
      exact ⟨back ++ rest, hp, mem_rests_iff.mpr ⟨back, rfl, hback⟩⟩

theorem describes_iff {p : Pattern} {cs : List Char} : p.describes cs = true ↔ p.Matches cs := by
  rw [describes, List.any_eq_true]
  constructor
  · rintro ⟨rest, hrest, hnil⟩
    obtain ⟨front, rfl, h⟩ := mem_rests_iff.mp hrest
    rwa [List.isEmpty_iff.mp hnil, List.append_nil]
  · intro h
    exact ⟨[], mem_rests_iff.mpr ⟨cs, (List.append_nil cs).symm, h⟩, rfl⟩

end Pattern

end DeliveryPath
