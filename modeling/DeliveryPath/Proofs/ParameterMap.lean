import DeliveryPath.Proofs.Reachability

/-!
# Parameters as a map

However a transformation is reached, the parameters of each segment are a map in the order of insertion. A key is
there once, the last value put under it counts, and the keys stand in the order in which they first came
(`parameters_are_map`).
-/

namespace DeliveryPath

/-! ## Values put one after the other -/

section
variable {α : Type}

def upsertAll (entries more : List (String × α)) : List (String × α) :=
  more.foldl (fun entries p => upsert p.1 p.2 entries) entries

theorem upsertAll_cons (entries : List (String × α)) (key : String) (value : α) (more : List (String × α)) :
    upsertAll entries ((key, value) :: more) = upsertAll (upsert key value entries) more := rfl

theorem valueAt?_upsertAll (key : String) (more entries : List (String × α)) :
    valueAt? key (upsertAll entries more) = ((more.findRev? (·.1 = key)).map Prod.snd).or (valueAt? key entries) :=
  valueAt?_foldl valueAt?_upsert key more entries

theorem upsertAll_of_nodup : ∀ {more entries : List (String × α)}, ((entries ++ more).map Prod.fst).Nodup →
    upsertAll entries more = entries ++ more
  | [], entries, _ => (List.append_nil entries).symm
  | (k, v) :: more, entries, h => by
    have hnew : k ∉ entries.map Prod.fst := by
      rw [List.map_append, List.map_cons, List.nodup_append] at h
      exact fun hk => h.2.2 k hk k (List.mem_cons_self ..) rfl
    rw [upsertAll_cons, upsert_of_not_mem v hnew, upsertAll_of_nodup (by rwa [List.append_assoc]), List.append_assoc,
      List.singleton_append]

/-- New keys come behind the old ones, each where it is first put. -/
theorem keys_upsertAll : ∀ (more entries : List (String × α)),
    (upsertAll entries more).map Prod.fst = entries.map Prod.fst ++
      ((more.map Prod.fst).filter (· ∉ entries.map Prod.fst)).eraseDups
  | [], _ => by simp [upsertAll]
  | (k, v) :: more, entries => by
    rw [upsertAll_cons, keys_upsertAll more, keys_upsert, List.map_cons]
    by_cases hk : k ∈ entries.map Prod.fst
    · rw [if_pos hk, List.filter_cons_of_neg (by simpa using hk)]
    · have hnew : ∀ k', decide (k' ∉ entries.map Prod.fst ++ [k]) =
          (!k' == k && decide (k' ∉ entries.map Prod.fst)) := by
        intro k'
        rw [Bool.eq_iff_iff]
        simp [and_comm]
      rw [if_neg hk, List.filter_cons_of_pos (by simpa using hk), List.eraseDups_cons, List.filter_filter,
        List.append_assoc, List.singleton_append]
      simp only [hnew]

end

namespace Transformation

def addAll (t : Transformation) (entries : List (String × Value)) : Transformation :=
  entries.foldl (fun t p => t.add p.1 p.2) t

theorem addAll_eq : ∀ (entries : List (String × Value)) (t : Transformation), t.addAll entries =
    { t with current := { t.current with parameters := upsertAll t.current.parameters entries } }
  | [], ⟨_, _⟩ => rfl
  | p :: entries, t => addAll_eq entries (t.add p.1 p.2)

theorem ofParameters_eq (parameters : List (String × Value)) :
    ofParameters parameters = { current := { parameters := upsertAll [] parameters } } := addAll_eq parameters empty

/-- In a reachable transformation no segment holds a key twice. Of values added one after the other, the last one
under a key counts, and keys that are new come behind the others in the order in which they are first added. All
else stays. -/
theorem parameters_are_map {t : Transformation} (h : Reachable t) :
    (∀ s ∈ t.segments, s.DistinctKeys) ∧
    ∀ entries : List (String × Value),
      (∀ key, (t.addAll entries).get? key =
        ((entries.findRev? (·.1 = key)).map Prod.snd).or (t.get? key)) ∧
      (t.addAll entries).current.parameters.map Prod.fst = t.current.parameters.map Prod.fst ++
        ((entries.map Prod.fst).filter (· ∉ t.current.parameters.map Prod.fst)).eraseDups ∧
      (t.addAll entries).chained = t.chained ∧
      (t.addAll entries).current.htmlWidth = t.current.htmlWidth ∧
      (t.addAll entries).current.htmlHeight = t.current.htmlHeight := by
  refine ⟨(reachable_iff_built.mp h).distinctKeys, ?_⟩
  intro entries
  rw [addAll_eq]
  refine ⟨?_, keys_upsertAll entries _, rfl, rfl, rfl⟩
  intro key
  exact valueAt?_upsertAll key entries t.current.parameters

def sizedCrop : Transformation := empty.chain.set .width "100"

theorem parameters_are_map_sizedCrop : Reachable sizedCrop ∧
    (sizedCrop.addAll [("crop", .scalar "fill"), ("width", .scalar "50"), ("crop", .scalar "fit")]).get? "crop" =
      some (.scalar "fit") ∧
    (sizedCrop.addAll [("crop", .scalar "fill"), ("width", .scalar "50"), ("crop", .scalar "fit")]).current.parameters.map
      Prod.fst = ["width", "crop"] := by
  have h : Reachable sizedCrop := Reachable.empty.chain.set (.text .width "100") rfl
  obtain ⟨-, hadd⟩ := parameters_are_map h
  obtain ⟨hget, hkeys, -⟩ := hadd [("crop", .scalar "fill"), ("width", .scalar "50"), ("crop", .scalar "fit")]
  exact ⟨h, hget "crop", hkeys⟩

end Transformation

end DeliveryPath
