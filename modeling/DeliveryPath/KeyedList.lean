/-!
# Lists of values under keys

Two ways to keep values under distinct keys: in the order in which the keys came first (`upsert`), and in
ascending order of the keys (`insertByKey`). In both, a later value for a key takes the place of the earlier one.
-/

namespace DeliveryPath

section
variable {α : Type}

/-- The first value under a key. -/
def valueAt? (key : String) : List (String × α) → Option α
  | [] => none
  | (k, v) :: rest => if k = key then some v else valueAt? key rest

/-- One value changed in its place, or added at the end if the key is new. -/
def upsert (key : String) (value : α) : List (String × α) → List (String × α)
  | [] => [(key, value)]
  | (k, v) :: rest => if k = key then (k, value) :: rest else (k, v) :: upsert key value rest

/-- One value put where its key belongs among ascending keys. -/
def insertByKey (key : String) (value : α) : List (String × α) → List (String × α)
  | [] => [(key, value)]
  | (k, v) :: rest =>
    if key = k then (key, value) :: rest
    else if key < k then (key, value) :: (k, v) :: rest
    else (k, v) :: insertByKey key value rest

/-! ## By first appearance -/

theorem valueAt?_upsert (key : String) (value : α) (k : String) : ∀ entries : List (String × α),
    valueAt? k (upsert key value entries) = if key = k then some value else valueAt? k entries
  | [] => rfl
  | (k', v) :: rest => by
    by_cases h' : k' = key
    · subst h'
      by_cases h : k' = k <;> simp [upsert, valueAt?, h]
    · by_cases hk : k' = k
      · subst hk
        simp [upsert, valueAt?, h', Ne.symm h']
      · simp [upsert, valueAt?, h', hk, valueAt?_upsert key value k rest]

theorem keys_upsert (key : String) (value : α) : ∀ entries : List (String × α),
    (upsert key value entries).map Prod.fst =
      if key ∈ entries.map Prod.fst then entries.map Prod.fst else entries.map Prod.fst ++ [key]
  | [] => rfl
  | (k, v) :: rest => by
    by_cases h : k = key
    · simp [upsert, h]
    · have h' : ¬key = k := fun hk => h hk.symm
      by_cases hm : key ∈ rest.map Prod.fst
      · simp only [upsert, h, if_false, List.map_cons, keys_upsert key value rest, hm, if_true, List.mem_cons,
          or_true]
      · simp only [upsert, h, if_false, List.map_cons, keys_upsert key value rest, hm, List.mem_cons, h',
          or_self, List.cons_append]

theorem nodup_keys_upsert {key : String} {value : α} {entries : List (String × α)}
    (h : (entries.map Prod.fst).Nodup) : ((upsert key value entries).map Prod.fst).Nodup := by
  rw [keys_upsert]
  by_cases hk : key ∈ entries.map Prod.fst
  · rw [if_pos hk]; exact h
  · rw [if_neg hk, List.nodup_append]
    refine ⟨h, by simp, ?_⟩
    intro k hk' k' hm hkk
    rw [List.mem_singleton] at hm
    exact hk (hm ▸ hkk ▸ hk')

theorem upsert_of_not_mem {key : String} (value : α) : ∀ {entries : List (String × α)},
    key ∉ entries.map Prod.fst → upsert key value entries = entries ++ [(key, value)]
  | [], _ => rfl
  | (k, v) :: rest, h => by
    rw [List.map_cons, List.mem_cons, not_or] at h
    rw [upsert, if_neg (Ne.symm h.1), upsert_of_not_mem value h.2, List.cons_append]

theorem filter_upsert (keep : String → Bool) {key : String} (h : keep key = false) (value : α) :
    ∀ entries : List (String × α), (upsert key value entries).filter (keep ·.1) = entries.filter (keep ·.1)
  | [] => by simp [upsert, h]
  | (k, v) :: rest => by
    by_cases hk : k = key
    · simp [upsert, hk, h]
    · cases hkeep : keep k <;> simp [upsert, hk, hkeep, filter_upsert keep h value rest]

/-! ## Without a key -/

/-- The entries under other keys. -/
def without (key : String) (entries : List (String × α)) : List (String × α) := entries.filter (·.1 ≠ key)

theorem find?_of_valueAt? {key : String} {value : α} : ∀ {entries : List (String × α)},
    valueAt? key entries = some value → entries.find? (·.1 = key) = some (key, value)
  | [], h => by cases h
  | (k, v) :: rest, h => by
    unfold valueAt? at h
    by_cases hk : k = key
    · rw [if_pos hk, Option.some.injEq] at h
      rw [List.find?_cons_of_pos (by simp [hk]), hk, h]
    · rw [if_neg hk] at h
      rw [List.find?_cons_of_neg (by simp [hk])]
      exact find?_of_valueAt? h

theorem eq_singleton_of_valueAt? {key : String} {value : α} {entries : List (String × α)}
    (h : valueAt? key entries = some value) (hl : entries.length < 2) : entries = [(key, value)] := by
  match entries, h, hl with
  | [], h, _ => cases h
  | [(k, v)], h, _ =>
    by_cases hk : k = key
    · rw [valueAt?, if_pos hk, Option.some.injEq] at h
      rw [hk, h]
    · rw [valueAt?, if_neg hk] at h; cases h
  | _ :: _ :: rest, _, hl => simp only [List.length_cons] at hl; omega

theorem valueAt?_without (key k : String) : ∀ entries : List (String × α),
    valueAt? k (without key entries) = if k = key then none else valueAt? k entries
  | [] => by simp [without, valueAt?]
  | (k', v) :: rest => by
    have ih := valueAt?_without key k rest
    unfold without at ih ⊢
    by_cases hk' : k' = key
    · rw [List.filter_cons_of_neg (by simp [hk']), ih]
      by_cases hk : k = key
      · rw [if_pos hk, if_pos hk]
      · rw [if_neg hk, if_neg hk, valueAt?, if_neg (by rw [hk']; exact Ne.symm hk)]
    · rw [List.filter_cons_of_pos (by simp [hk']), valueAt?, valueAt?, ih]
      by_cases hk : k' = k
      · rw [if_pos hk, if_pos hk, if_neg (hk ▸ hk')]
      · rw [if_neg hk, if_neg hk]

theorem eraseP_eq_without {key : String} : ∀ {entries : List (String × α)}, (entries.map Prod.fst).Nodup →
    entries.eraseP (·.1 = key) = without key entries
  | [], _ => rfl
  | (k, v) :: rest, h => by
    rw [List.map_cons, List.nodup_cons] at h
    unfold without
    by_cases hk : k = key
    · rw [List.eraseP_cons_of_pos (by simp [hk]), List.filter_cons_of_neg (by simp [hk])]
      refine (List.filter_eq_self.mpr ?_).symm
      intro p hp
      have hne : p.1 ≠ key := fun he => h.1 (List.mem_map.mpr ⟨p, hp, he.trans hk.symm⟩)
      simp [hne]
    · rw [List.eraseP_cons_of_neg (by simp [hk]), List.filter_cons_of_pos (by simp [hk])]
      exact congrArg ((k, v) :: ·) (eraseP_eq_without h.2)

theorem nodup_keys_without {key : String} {entries : List (String × α)} (h : (entries.map Prod.fst).Nodup) :
    ((without key entries).map Prod.fst).Nodup :=
  h.sublist (List.filter_sublist.map Prod.fst)

theorem without_upsert_self (key : String) (value : α) : ∀ entries : List (String × α),
    without key (upsert key value entries) = without key entries
  | [] => by simp [upsert, without]
  | (k, v) :: rest => by
    have ih := without_upsert_self key value rest
    unfold without at ih ⊢
    by_cases hk : k = key
    · simp [upsert, hk]
    · rw [upsert, if_neg hk, List.filter_cons_of_pos (by simp [hk]), List.filter_cons_of_pos (by simp [hk]), ih]

theorem without_upsert {key k : String} (h : key ≠ k) (value : α) : ∀ entries : List (String × α),
    without k (upsert key value entries) = upsert key value (without k entries)
  | [] => by simp [upsert, without, h]
  | (k', v) :: rest => by
    have ih := without_upsert h value rest
    unfold without at ih ⊢
    by_cases hk' : k' = key
    · simp [upsert, hk', h]
    · rw [upsert, if_neg hk']
      by_cases hk : k' = k
      · rw [List.filter_cons_of_neg (by simp [hk]), List.filter_cons_of_neg (by simp [hk]), ih]
      · rw [List.filter_cons_of_pos (by simp [hk]), List.filter_cons_of_pos (by simp [hk]), ih, upsert, if_neg hk']

/-! ## By ascending key -/

theorem valueAt?_insertByKey (key : String) (value : α) (k : String) : ∀ entries : List (String × α),
    valueAt? k (insertByKey key value entries) = if key = k then some value else valueAt? k entries
  | [] => rfl
  | (k', v) :: rest => by
    unfold insertByKey
    by_cases heq : key = k'
    · subst heq
      by_cases hk : key = k <;> simp [valueAt?, hk]
    · rw [if_neg heq]
      by_cases hlt : key < k'
      · rw [if_pos hlt]
        rfl
      · rw [if_neg hlt, valueAt?, valueAt?, valueAt?_insertByKey key value k rest]
        by_cases hk : k' = k
        · rw [if_pos hk, if_pos hk, if_neg (hk ▸ heq)]
        · rw [if_neg hk, if_neg hk]

theorem mem_of_mem_insertByKey {key : String} {value : α} {p : String × α} : ∀ {entries : List (String × α)},
    p ∈ insertByKey key value entries → p = (key, value) ∨ p ∈ entries
  | [], h => by simpa [insertByKey] using h
  | (k, v) :: rest, h => by
    unfold insertByKey at h
    split at h
    · rcases List.mem_cons.1 h with h | h
      · exact .inl h
      · exact .inr (List.mem_cons_of_mem _ h)
    · split at h
      · exact List.mem_cons.1 h
      · rcases List.mem_cons.1 h with h | h
        · exact .inr (h ▸ List.mem_cons_self ..)
        · exact (mem_of_mem_insertByKey h).imp_right (List.mem_cons_of_mem _)

/-- Ascending keys stay ascending, and hence distinct. -/
theorem pairwise_insertByKey {key : String} {value : α} : ∀ {entries : List (String × α)},
    entries.Pairwise (·.1 < ·.1) → (insertByKey key value entries).Pairwise (·.1 < ·.1)
  | [], _ => by simp [insertByKey]
  | (k, v) :: rest, h => by
    obtain ⟨hfirst, hrest⟩ := List.pairwise_cons.1 h
    unfold insertByKey
    split
    · next hk => exact List.pairwise_cons.2 ⟨fun p hp => hk ▸ hfirst p hp, hrest⟩
    · next hk =>
      split
      · next hlt =>
        refine List.pairwise_cons.2 ⟨fun p hp => ?_, h⟩
        rcases List.mem_cons.1 hp with rfl | hp
        · exact hlt
        · exact String.lt_trans hlt (hfirst p hp)
      · next hnlt =>
        refine List.pairwise_cons.2 ⟨fun p hp => ?_, pairwise_insertByKey hrest⟩
        rcases mem_of_mem_insertByKey hp with rfl | hp
        · by_cases hlt : k < key
          · exact hlt
          · exact absurd (String.le_antisymm (String.not_lt.1 hlt) (String.not_lt.1 hnlt)) hk
        · exact hfirst p hp

/-! ## In any order -/

/-- Of values put one after the other, the last one under a key counts. -/
theorem valueAt?_foldl {put : String → α → List (String × α) → List (String × α)}
    (hput : ∀ key value k entries,
      valueAt? k (put key value entries) = if key = k then some value else valueAt? k entries)
    (key : String) : ∀ more entries : List (String × α),
      valueAt? key (more.foldl (fun entries p => put p.1 p.2 entries) entries) =
        ((more.findRev? (·.1 = key)).map Prod.snd).or (valueAt? key entries)
  | [], _ => rfl
  | (k, v) :: more, entries => by
    rw [List.foldl_cons, valueAt?_foldl hput key more, hput, List.findRev?_eq_find?_reverse,
      List.findRev?_eq_find?_reverse, List.reverse_cons, List.find?_append]
    cases more.reverse.find? (·.1 = key) with
    | some p => rfl
    | none => by_cases hk : k = key <;> simp [hk]

theorem valueAt?_eq_some_iff_mem {key : String} {value : α} : ∀ {entries : List (String × α)},
    (entries.map Prod.fst).Nodup → (valueAt? key entries = some value ↔ (key, value) ∈ entries)
  | [], _ => by simp [valueAt?]
  | (k, v) :: rest, h => by
    rw [List.map_cons, List.nodup_cons] at h
    have ih : valueAt? key rest = some value ↔ (key, value) ∈ rest := valueAt?_eq_some_iff_mem h.2
    by_cases hk : k = key
    · subst hk
      have hrest : (k, value) ∉ rest := fun hm => h.1 (List.mem_map.mpr ⟨_, hm, rfl⟩)
      simp [valueAt?, hrest, eq_comm]
    · simp [valueAt?, hk, Ne.symm hk, ih]

theorem valueAt?_filter (keep : String → α → Bool) (key : String) : ∀ {entries : List (String × α)},
    (entries.map Prod.fst).Nodup →
      valueAt? key (entries.filter fun p => keep p.1 p.2) = (valueAt? key entries).filter (keep key)
  | [], _ => rfl
  | (k, v) :: rest, h => by
    rw [List.map_cons, List.nodup_cons] at h
    have ih := valueAt?_filter keep key h.2
    by_cases hk : k = key
    · subst hk
      have hrest : valueAt? k rest = none := by
        cases hv : valueAt? k rest with
        | none => rfl
        | some w => exact absurd (List.mem_map.mpr ⟨_, (valueAt?_eq_some_iff_mem h.2).mp hv, rfl⟩) h.1
      cases hkeep : keep k v with
      | true => simp [valueAt?, hkeep, Option.filter]
      | false => simp [valueAt?, hkeep, ih, hrest, Option.filter]
    · cases hkeep : keep k v with
      | true => simp [valueAt?, hkeep, hk, ih]
      | false => simp [valueAt?, hkeep, hk, ih]

/-- Under distinct keys, the order of entries is all that look-ups do not tell. -/
theorem perm_iff_valueAt? {entries others : List (String × α)} (h : (entries.map Prod.fst).Nodup)
    (h' : (others.map Prod.fst).Nodup) :
    entries.Perm others ↔ ∀ key, valueAt? key entries = valueAt? key others := by
  constructor
  · intro hp key
    apply Option.ext
    intro value
    rw [valueAt?_eq_some_iff_mem h, valueAt?_eq_some_iff_mem h']
    exact hp.mem_iff
  · intro hv
    have hn : ∀ {l : List (String × α)}, (l.map Prod.fst).Nodup → l.Nodup := by
      intro l hl
      exact List.Pairwise.of_map Prod.fst (fun a b hne he => hne (congrArg Prod.fst he)) hl
    apply (List.perm_ext_iff_of_nodup (hn h) (hn h')).mpr
    rintro ⟨key, value⟩
    rw [← valueAt?_eq_some_iff_mem h, ← valueAt?_eq_some_iff_mem h', hv key]

/-! ## Sorted by key -/

theorem pairwise_mergeSort_keys {entries : List (String × α)} (h : (entries.map Prod.fst).Nodup) :
    (entries.mergeSort fun a b => decide (a.1 ≤ b.1)).Pairwise (·.1 < ·.1) := by
  have hperm := List.mergeSort_perm entries fun a b => decide (a.1 ≤ b.1)
  have hne := List.pairwise_map.mp ((hperm.map Prod.fst).nodup_iff.mpr h)
  have hle : (entries.mergeSort fun a b => decide (a.1 ≤ b.1)).Pairwise fun a b => decide (a.1 ≤ b.1) = true := by
    apply List.pairwise_mergeSort
    · intro a b c hab hbc
      simp only [decide_eq_true_eq] at hab hbc ⊢
      exact String.le_trans hab hbc
    · intro a b
      simp only [Bool.or_eq_true, decide_eq_true_eq]
      exact String.le_total a.1 b.1
  refine (hle.and hne).imp ?_
  rintro a b ⟨hab, hn⟩
  by_cases hlt : a.1 < b.1
  · exact hlt
  · exact absurd (String.le_antisymm (of_decide_eq_true hab) (String.not_lt.1 hlt)) hn

/-- There is one way only to put entries in ascending order. -/
theorem eq_of_pairwise_keys {entries others : List (String × α)} (hp : entries.Perm others)
    (h : entries.Pairwise (·.1 < ·.1)) (h' : others.Pairwise (·.1 < ·.1)) : entries = others :=
  hp.eq_of_pairwise (fun _ _ _ _ hab hba => absurd hba (String.lt_asymm hab)) h h'

end

end DeliveryPath
