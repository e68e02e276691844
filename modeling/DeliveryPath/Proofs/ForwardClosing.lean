import Mathlib.Data.List.Basic
import Mathlib.Data.List.Induction
import DeliveryPath.Proofs.MarkerIsolation

/-!
# Closing a block, read forward

What closing a block does to the segments can be said from the first one to the last: from the last marker that is
not `else` on, every marker comes apart from the other parameters of its segment (`endIf_forward`). Looking
for the markers from the last segment back and then moving them one by one, within a list that grows meanwhile, is
another way to the same segments (`movedInPlace?_eq`).
-/

namespace DeliveryPath.Transformation

/-! ## Markers moved in place -/

/-- The places of the markers of the last block among the first segments, the last one first, and the place where
that block begins. -/
def markerPlaces (segments : List Transformation) : Nat → List Nat × Option Nat
  | 0 => ([], none)
  | n + 1 =>
    match segments[n]?.bind marker? with
    | none => markerPlaces segments n
    | some m =>
      if m = endMarker then ([], none)
      else if m = elseMarker then (n :: (markerPlaces segments n).1, (markerPlaces segments n).2)
      else ([n], some n)

/-- Moves the marker of the segment at a place to a new segment at that place. Nothing, if there is no such place. -/
def moveMarker? (segments : List Transformation) (place : Nat) : Option (List Transformation) :=
  segments[place]?.map fun t =>
    if t.current.parameters.length < 2 then segments
    else
      match t.current.parameters.find? (·.1 = Parameter.condition.name) with
      | none => segments
      | some marker =>
        let rest := t.current.parameters.eraseP (·.1 = Parameter.condition.name)
        (segments.set place { t with current := { t.current with parameters := rest } }).insertIdx place
          { current := { parameters := [marker] } }

def movedInPlace? (segments : List Transformation) : Option (List Transformation) :=
  match markerPlaces segments segments.length with
  | (_, none) => some segments
  | (places, some start) =>
    if start + 1 = segments.length then some segments else places.foldlM moveMarker? segments

theorem insertIdx_set_append {α : Type} (v : List α) (a b c : α) : ∀ u : List α,
    ((u ++ a :: v).set u.length b).insertIdx u.length c = u ++ c :: b :: v
  | [] => rfl
  | d :: u => congrArg (d :: ·) (insertIdx_set_append v a b c u)

theorem moveMarker?_append (u v : List Transformation) (t : Transformation) :
    moveMarker? (u ++ t :: v) u.length = some (u ++ t.splitMarker ++ v) := by
  unfold moveMarker? splitMarker
  rw [List.getElem?_append_right (Nat.le_refl _), Nat.sub_self, List.getElem?_cons_zero, Option.map_some]
  cases t.current.parameters.find? (·.1 = Parameter.condition.name) with
  | none => simp
  | some marker =>
    by_cases hl : t.current.parameters.length < 2
    · simp [hl]
    · dsimp only
      rw [if_neg hl, if_neg hl, insertIdx_set_append]
      simp

/-- Among the first segments a block is open from a place on: moving the markers found is the same as splitting them
off, from the last segment back. -/
structure MovesTo (segments : List Transformation) (n start : Nat) (split : List Transformation) : Prop where
  found : (markerPlaces segments n).2 = some start
  lt : start < n
  atEnd : start + 1 = n ↔ (segments.take n).getLast?.any opensBlock = true
  back : splitMarkersBack? (segments.take n).reverse = some split
  moves (after : List Transformation) :
    (markerPlaces segments n).1.foldlM moveMarker? (segments.take n ++ after) = some (split.reverse ++ after)

section
variable {segments split : List Transformation} {n start : Nat} {t : Transformation} (ht : segments[n]? = some t)
include ht

theorem take_succ_eq : segments.take (n + 1) = segments.take n ++ [t] := by
  rw [List.take_add_one, ht]; rfl

theorem moveMarker?_take (after : List Transformation) : moveMarker? (segments.take n ++ t :: after) n =
    some (segments.take n ++ t.splitMarker ++ after) := by
  have hn : n < segments.length := (List.getElem?_eq_some_iff.mp ht).1
  have hmoved := moveMarker?_append (segments.take n) after t
  rwa [List.length_take_of_le (Nat.le_of_lt hn)] at hmoved

theorem splitMarkersBack?_take_succ : splitMarkersBack? (segments.take (n + 1)).reverse =
    splitMarkersBack? (t :: (segments.take n).reverse) := by
  rw [take_succ_eq ht, List.reverse_concat]

theorem getLast?_take_succ : (segments.take (n + 1)).getLast? = some t := by
  rw [take_succ_eq ht, List.getLast?_concat]

theorem MovesTo.unmarked (hm : t.marker? = none) (h : MovesTo segments n start split) :
    MovesTo segments (n + 1) start (t :: split) := by
  have hplaces : markerPlaces segments (n + 1) = markerPlaces segments n := by
    rw [markerPlaces, ht, Option.bind_some, hm]
  refine ⟨by rw [hplaces, h.found], Nat.lt_succ_of_lt h.lt, ?_, ?_, ?_⟩
  · have hlt := h.lt
    simp only [getLast?_take_succ ht, opensBlock, hm, Option.any_some, Option.any_none, Bool.false_eq_true, iff_false]
    omega
  · rw [splitMarkersBack?_take_succ ht, splitMarkersBack?, hm, h.back]
    rfl
  · intro after
    rw [hplaces, take_succ_eq ht, List.append_assoc, List.singleton_append, h.moves, List.reverse_cons,
      List.append_assoc, List.singleton_append]

theorem MovesTo.elseMarked (hm : t.marker? = some elseMarker) (h : MovesTo segments n start split) :
    MovesTo segments (n + 1) start (t.splitMarker.reverse ++ split) := by
  have hend : elseMarker ≠ endMarker := by decide
  have hplaces : markerPlaces segments (n + 1) =
      (n :: (markerPlaces segments n).1, (markerPlaces segments n).2) := by
    rw [markerPlaces, ht, Option.bind_some, hm]
    dsimp only
    rw [if_neg hend, if_pos rfl]
  refine ⟨by rw [hplaces, h.found], Nat.lt_succ_of_lt h.lt, ?_, ?_, ?_⟩
  · have hlt := h.lt
    simp only [getLast?_take_succ ht, opensBlock, hm, Option.any_some, ne_eq, not_true_eq_false, decide_false,
      Bool.false_and, Bool.false_eq_true, iff_false]
    omega
  · rw [splitMarkersBack?_take_succ ht, splitMarkersBack?, hm, h.back]
    dsimp only
    rw [if_neg hend, if_pos rfl]
    rfl
  · intro after
    rw [hplaces, take_succ_eq ht, List.append_assoc, List.singleton_append, List.foldlM_cons, moveMarker?_take ht,
      Option.bind_eq_bind, Option.bind_some, List.append_assoc, h.moves, List.reverse_append, List.reverse_reverse,
      List.append_assoc]

theorem movesTo_of_condition {text : String} (hm : t.marker? = some text) (helse : text ≠ elseMarker)
    (hend : text ≠ endMarker) : MovesTo segments (n + 1) n (t.splitMarker.reverse ++ (segments.take n).reverse) := by
  have hplaces : markerPlaces segments (n + 1) = ([n], some n) := by
    rw [markerPlaces, ht, Option.bind_some, hm]
    dsimp only
    rw [if_neg hend, if_neg helse]
  refine ⟨by rw [hplaces], Nat.lt_succ_self n, ?_, ?_, ?_⟩
  · simp [getLast?_take_succ ht, opensBlock, hm, helse, hend]
  · rw [splitMarkersBack?_take_succ ht, splitMarkersBack?, hm]
    dsimp only
    rw [if_neg hend, if_neg helse]
  · intro after
    rw [hplaces, take_succ_eq ht, List.append_assoc, List.singleton_append, List.foldlM_cons, moveMarker?_take ht]
    simp

end

/-- The scan finds no open block, or the places of its markers. -/
theorem markerPlaces_cases (segments : List Transformation) : ∀ n, n ≤ segments.length →
    ((markerPlaces segments n).2 = none ∧ splitMarkersBack? (segments.take n).reverse = none) ∨
    ∃ start split, MovesTo segments n start split
  | 0, _ => .inl ⟨rfl, rfl⟩
  | n + 1, hn => by
    obtain ⟨t, ht⟩ : ∃ t, segments[n]? = some t := ⟨segments[n], List.getElem?_eq_getElem hn⟩
    have ih := markerPlaces_cases segments n (Nat.le_of_succ_le hn)
    rw [splitMarkersBack?_take_succ ht, markerPlaces, ht, Option.bind_some, splitMarkersBack?]
    cases hm : t.marker? with
    | none =>
      rcases ih with ⟨hnone, hback⟩ | ⟨start, split, h⟩
      · exact .inl ⟨hnone, by rw [hback]; rfl⟩
      · exact .inr ⟨_, _, h.unmarked ht hm⟩
    | some text =>
      dsimp only
      by_cases hend : text = endMarker
      · rw [if_pos hend, if_pos hend]
        exact .inl ⟨rfl, rfl⟩
      rw [if_neg hend, if_neg hend]
      by_cases helse : text = elseMarker
      · rw [if_pos helse, if_pos helse]
        subst helse
        rcases ih with ⟨hnone, hback⟩ | ⟨start, split, h⟩
        · exact .inl ⟨hnone, by rw [hback]; rfl⟩
        · exact .inr ⟨_, _, h.elseMarked ht hm⟩
      · exact .inr ⟨_, _, movesTo_of_condition ht hm helse hend⟩

/-- No place that is moved to is out of range, for the places come in descending order. -/
theorem movedInPlace?_eq (segments : List Transformation) :
    movedInPlace? segments = some (isolateMarkers segments) := by
  unfold movedInPlace? isolateMarkers
  rcases markerPlaces_cases segments segments.length (Nat.le_refl _) with ⟨hnone, hback⟩ | ⟨start, split, h⟩
  · rw [List.take_length] at hback
    rw [hback]
    cases hp : markerPlaces segments segments.length with
    | mk places start =>
      rw [hp] at hnone
      cases hnone
      simp
  · have hfound := h.found
    have hlast := h.atEnd
    have hback := h.back
    have hall := h.moves []
    rw [List.take_length] at hlast hback hall
    rw [List.append_nil, List.append_nil] at hall
    rw [hback]
    cases hp : markerPlaces segments segments.length with
    | mk places start' =>
      rw [hp] at hfound hall
      cases hfound
      dsimp only at hall ⊢
      by_cases ho : segments.getLast?.any opensBlock = true
      · rw [if_pos (hlast.mpr ho), if_pos ho]
      · rw [if_neg (fun he => ho (hlast.mp he)), if_neg ho, hall]; rfl

/-! ## From the last boundary on -/

/-- The segment at a place holds a condition or a marker other than `else`. -/
def IsBoundary (segments : List Transformation) (i : Nat) (text : String) : Prop :=
  segments[i]?.bind marker? = some text ∧ text ≠ elseMarker

/-- A segment with a marker and more is parted: the marker comes first, and then the other parameters. -/
def parted (t : Transformation) : List Transformation :=
  match t.marker? with
  | none => [t]
  | some text =>
    if 2 ≤ t.current.parameters.length then
      [{ current := .ofMarker text },
       { t with current := { t.current with
           parameters := t.current.parameters.eraseP (·.1 = Parameter.condition.name) } }]
    else [t]

theorem isolated_eq_parted (t : Transformation) : t.isolated = t.parted := by
  unfold isolated parted
  cases hm : t.marker? with
  | none => rfl
  | some text =>
    have hf := find?_of_valueAt? (get?_of_marker? hm)
    rw [Option.isSome_some, if_pos rfl, splitMarker, hf]
    dsimp only
    by_cases hl : t.current.parameters.length < 2
    · rw [if_pos hl, if_neg (Nat.not_le.mpr hl)]
    · rw [if_neg hl, if_pos (Nat.not_lt.mp hl)]; rfl

theorem exists_of_opensBlock {t : Transformation} (h : t.opensBlock = true) :
    ∃ text, t.marker? = some text ∧ text ≠ elseMarker ∧ text ≠ endMarker := by
  unfold opensBlock at h
  cases hm : t.marker? with
  | none => rw [hm] at h; cases h
  | some text =>
    rw [hm, Option.any_some, Bool.and_eq_true, decide_eq_true_eq, decide_eq_true_eq] at h
    exact ⟨text, rfl, h.1, h.2⟩

namespace EndsInBlock
variable {segments done rest : List Transformation} {first : Transformation}

theorem isBoundary (h : EndsInBlock segments done first rest) :
    ∃ text, IsBoundary segments done.length text ∧ text ≠ endMarker := by
  obtain ⟨text, hm, helse, hend⟩ := exists_of_opensBlock h.opens
  refine ⟨text, ⟨?_, helse⟩, hend⟩
  rw [h.eq_append, List.getElem?_append_right (Nat.le_refl _), Nat.sub_self, List.getElem?_cons_zero,
    Option.bind_some, hm]

theorem le_length (h : EndsInBlock segments done first rest) {i : Nat} {text : String}
    (hi : IsBoundary segments i text) : i ≤ done.length := by
  by_contra hlt
  obtain ⟨hm, helse⟩ := hi
  obtain ⟨k, rfl⟩ : ∃ k, i = done.length + (k + 1) := ⟨i - done.length - 1, by omega⟩
  rw [h.eq_append, List.getElem?_append_right (Nat.le_add_right _ _), Nat.add_sub_cancel_left,
    List.getElem?_cons_succ] at hm
  obtain ⟨t, ht, hm⟩ := Option.bind_eq_some_iff.mp hm
  have hc := h.continues t (List.mem_of_getElem? ht)
  unfold continuesBlock at hc
  rw [hm, Option.all_some, decide_eq_true_eq] at hc
  exact helse hc

end EndsInBlock

theorem endsInBlock_of_isBoundary {segments : List Transformation} {i : Nat} {text : String}
    (h : IsBoundary segments i text) (hend : text ≠ endMarker)
    (hlast : ∀ j other, IsBoundary segments j other → j ≤ i) :
    ∃ first, segments[i]? = some first ∧ EndsInBlock segments (segments.take i) first (segments.drop (i + 1)) := by
  obtain ⟨hm, helse⟩ := h
  obtain ⟨first, hf, hm⟩ := Option.bind_eq_some_iff.mp hm
  obtain ⟨hi, rfl⟩ := List.getElem?_eq_some_iff.mp hf
  refine ⟨segments[i], hf, ?_, ?_, ?_⟩
  · rw [← List.drop_eq_getElem_cons hi, List.take_append_drop]
  · unfold opensBlock
    simp [hm, helse, hend]
  · intro t ht
    obtain ⟨k, hk⟩ := List.mem_iff_getElem?.mp ht
    rw [List.getElem?_drop] at hk
    unfold continuesBlock
    cases hother : t.marker? with
    | none => rfl
    | some other =>
      rw [Option.all_some, decide_eq_true_eq]
      by_contra hne
      have hle := hlast (i + 1 + k) other ⟨by rw [hk, Option.bind_some, hother], hne⟩
      omega

theorem isolateMarkers_eq_self {segments : List Transformation}
    (h : ∀ i text, IsBoundary segments i text → (∀ j other, IsBoundary segments j other → j ≤ i) →
      text = endMarker ∨ i + 1 = segments.length) : isolateMarkers segments = segments := by
  rcases isolateMarkers_cases segments with heq | ⟨done, first, rest, hb, hne, -⟩
  · exact heq
  · obtain ⟨text, hi, hend⟩ := hb.isBoundary
    rcases h done.length text hi (fun j other hj => hb.le_length hj) with htext | hlen
    · exact absurd htext hend
    · rw [hb.eq_append, List.length_append, List.length_cons] at hlen
      exact absurd (List.length_eq_zero_iff.mp (by omega)) hne

theorem isolateMarkers_of_isBoundary {segments : List Transformation} {i : Nat} {text : String}
    (h : IsBoundary segments i text) (hlast : ∀ j other, IsBoundary segments j other → j ≤ i)
    (hend : text ≠ endMarker) (hlen : i + 1 ≠ segments.length) :
    isolateMarkers segments = segments.take i ++ (segments.drop i).flatMap parted := by
  obtain ⟨first, hf, hb⟩ := endsInBlock_of_isBoundary h hend hlast
  obtain ⟨hi, rfl⟩ := List.getElem?_eq_some_iff.mp hf
  have hne : segments.drop (i + 1) ≠ [] := by
    intro he
    rw [List.drop_eq_nil_iff] at he
    omega
  rw [hb.isolateMarkers hne, ← List.drop_eq_getElem_cons hi]
  exact congrArg (segments.take i ++ ·) (List.flatMap_congr fun t _ => isolated_eq_parted t)

theorem isBoundary_append_left {segments : List Transformation} {t : Transformation} {i : Nat} {text : String}
    (ht : t.continuesBlock = true) (h : IsBoundary (segments ++ [t]) i text) : IsBoundary segments i text := by
  obtain ⟨hm, helse⟩ := h
  obtain ⟨u, hu, hmarker⟩ := Option.bind_eq_some_iff.mp hm
  refine ⟨?_, helse⟩
  rcases Nat.lt_or_ge i segments.length with hlt | hge
  · rw [List.getElem?_append_left hlt] at hu
    rw [hu, Option.bind_some, hmarker]
  · rw [List.getElem?_append_right hge] at hu
    obtain rfl := List.mem_singleton.mp (List.mem_of_getElem? hu)
    unfold continuesBlock at ht
    rw [hmarker, Option.all_some, decide_eq_true_eq] at ht
    exact absurd ht helse

theorem lt_length_of_isBoundary {segments : List Transformation} {i : Nat} {text : String}
    (h : IsBoundary segments i text) : i < segments.length := by
  obtain ⟨u, hu, -⟩ := Option.bind_eq_some_iff.mp h.1
  exact (List.getElem?_eq_some_iff.mp hu).1

theorem last_boundary_cases (segments : List Transformation) : (∀ i text, ¬IsBoundary segments i text) ∨
    ∃ i text, IsBoundary segments i text ∧ ∀ j other, IsBoundary segments j other → j ≤ i := by
  induction segments using List.reverseRecOn with
  | nil => exact .inl fun i text h => absurd (lt_length_of_isBoundary h) (Nat.not_lt_zero i)
  | append_singleton segments t ih =>
    by_cases ht : t.continuesBlock = true
    · rcases ih with hnone | ⟨i, text, h, hlast⟩
      · exact .inl fun i text h => hnone i text (isBoundary_append_left ht h)
      · refine .inr ⟨i, text, ⟨?_, h.2⟩, fun j other hj => hlast j other (isBoundary_append_left ht hj)⟩
        rw [List.getElem?_append_left (lt_length_of_isBoundary h), h.1]
    · unfold continuesBlock at ht
      cases hm : t.marker? with
      | none => rw [hm] at ht; exact absurd rfl ht
      | some text =>
        rw [hm, Option.all_some, decide_eq_true_eq] at ht
        refine .inr ⟨segments.length, text, ⟨by simp [hm], ht⟩, ?_⟩
        intro j other hj
        have hlt := lt_length_of_isBoundary hj
        rw [List.length_append, List.length_singleton] at hlt
        exact Nat.le_of_lt_succ hlt

/-- What a transformation is once its block is closed. The open segment is a new one. The segments before it are those
of the transformation, its own last, and `end` after them. They are the same as before if nothing but `else` marks
them, or if the last other marker is `end` or in the last segment; if not, all segments from there on are parted. -/
theorem endIf_forward (t : Transformation) :
    t.chain.chained = t.chained ++ [{ current := t.current }] ∧ t.endIf.current = {} ∧
    ((∀ i text, ¬IsBoundary t.chain.chained i text) ∧
        t.endIf.chained = t.chain.chained ++ [{ current := .ofMarker endMarker }] ∨
      ∃ i text, IsBoundary t.chain.chained i text ∧ (∀ j other, IsBoundary t.chain.chained j other → j ≤ i) ∧
        t.endIf.chained = (if text = endMarker ∨ i + 1 = t.chain.chained.length then t.chain.chained
          else t.chain.chained.take i ++ (t.chain.chained.drop i).flatMap parted) ++
            [{ current := .ofMarker endMarker }]) := by
  refine ⟨rfl, rfl, ?_⟩
  rw [endIf_eq]
  rcases last_boundary_cases t.chain.chained with hnone | ⟨i, text, h, hlast⟩
  · refine .inl ⟨hnone, ?_⟩
    rw [isolateMarkers_eq_self fun i text h => absurd h (hnone i text)]
  · refine .inr ⟨i, text, h, hlast, ?_⟩
    by_cases hkept : text = endMarker ∨ i + 1 = t.chain.chained.length
    · rw [if_pos hkept, isolateMarkers_eq_self]
      intro j other hj hjlast
      obtain rfl : j = i := Nat.le_antisymm (hlast j other hj) (hjlast i text h)
      have hsame : other = text := Option.some.inj (hj.1.symm.trans h.1)
      rw [hsame]
      exact hkept
    · obtain ⟨hend, hlen⟩ := not_or.mp hkept
      rw [if_neg hkept, isolateMarkers_of_isBoundary h hlast hend hlen]

example : (((((empty.add "width" (.scalar "90")).chain.ifCondition "w_gt_100").add "crop" (.scalar "fill")).chain.add
      "effect" (.scalar "sepia")).ifElse.add "width" (.scalar "50")).endIf.chained.map (·.current.parameters) =
    [[("width", .scalar "90")], [("if", .scalar "w_gt_100")], [("crop", .scalar "fill")], [("effect", .scalar "sepia")],
      [("if", .scalar "else")], [("width", .scalar "50")], [("if", .scalar "end")]] := by rfl

end DeliveryPath.Transformation
