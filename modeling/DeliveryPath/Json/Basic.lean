import DeliveryPath.Error
import DeliveryPath.KeyedList

/-!
# JSON documents

A document keeps whole numbers apart from all others. Its objects keep their fields as written; whoever reads an
object goes through `Json.members`, where the keys ascend and of equal keys the last one counts.
-/

namespace DeliveryPath

inductive Json where
  | null
  | bool (b : Bool)
  | integer (n : Int)
  | real (x : Binary64)
  | string (s : String)
  | array (items : List Json)
  | object (fields : List (String × Json))

namespace Json

def sort : Json → JsonSort
  | null => .null
  | bool _ => .boolean
  | integer _ | real _ => .number
  | string _ => .string
  | array _ => .array
  | object _ => .object

/-- The fields of an object by ascending key. -/
def members (fields : List (String × Json)) : List (String × Json) :=
  fields.foldl (fun ms field => insertByKey field.1 field.2 ms) []

theorem pairwise_members (fields : List (String × Json)) : (members fields).Pairwise (·.1 < ·.1) := by
  have h : ∀ (fields ms : List (String × Json)), ms.Pairwise (·.1 < ·.1) →
      (fields.foldl (fun ms field => insertByKey field.1 field.2 ms) ms).Pairwise (·.1 < ·.1) := by
    intro fields
    induction fields with
    | nil => exact fun _ hms => hms
    | cons field fields ih => exact fun _ hms => ih _ (pairwise_insertByKey hms)
  exact h fields [] .nil

theorem valueAt?_members (key : String) (fields : List (String × Json)) :
    valueAt? key (members fields) = (fields.findRev? (·.1 = key)).map Prod.snd := by
  rw [members, valueAt?_foldl valueAt?_insertByKey, valueAt?, Option.or_none]

theorem nodup_keys_members (fields : List (String × Json)) : ((members fields).map Prod.fst).Nodup :=
  (pairwise_members fields).map Prod.fst fun _ _ hlt heq => String.lt_irrefl _ (heq ▸ hlt)

/-- Of the fields under one key, the last one is a member. -/
theorem mem_members_iff {fields : List (String × Json)} {key : String} {json : Json} :
    (key, json) ∈ members fields ↔ (fields.findRev? (·.1 = key)).map Prod.snd = some json := by
  rw [← valueAt?_members, valueAt?_eq_some_iff_mem (nodup_keys_members fields)]

/-- A text that may be absent or `null`; nothing for any other value. -/
def optionalText? : Option Json → Option (Option String)
  | none | some null => some none
  | some (string s) => some (some s)
  | some _ => none

end Json

end DeliveryPath
