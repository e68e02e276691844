import DeliveryPath.Proofs.ByteOrder
import DeliveryPath.Proofs.Flattening
import DeliveryPath.Proofs.Numerals
import DeliveryPath.Proofs.ParameterMap
import DeliveryPath.Transformation.OfJson

/-!
# Documents

A document is accepted if it is an object or an array of accepted documents, and if each field that is not `null` has a
value that a parameter can hold and that passes the checks on its key (`IsDocument`). The parameters of a segment are
then the fields of the object, and an array is a chain (`Describes`). A document that is not accepted has a first fault,
which is the error (`FirstFault`, `Transformation.ofJson_outcome`).
-/

namespace DeliveryPath

namespace Json

/-! ## Fields that count -/

/-- The fields of an object by ascending key, without those that are `null`. -/
def entries (fields : List (String × Json)) : List (String × Json) := (members fields).filter (·.2.sort ≠ .null)

theorem sort_eq_null_iff {json : Json} : json.sort = .null ↔ json = .null := by
  cases json <;> simp [sort]

/-- An entry is the last field under its key, if that one is not `null`. -/
theorem mem_entries_iff {fields : List (String × Json)} {key : String} {json : Json} :
    (key, json) ∈ entries fields ↔ (fields.findRev? (·.1 = key)).map Prod.snd = some json ∧ json ≠ .null := by
  simp [entries, mem_members_iff, sort_eq_null_iff]

theorem pairwise_entries (fields : List (String × Json)) : (entries fields).Pairwise (·.1 < ·.1) :=
  (pairwise_members fields).filter _

/-! ## Values that a parameter can hold -/

def IsScalar (json : Json) : Prop := json.sort ∈ [JsonSort.boolean, .number, .string]

/-- What a scalar is written as: a text as it is, a truth value by its name, a whole number by its digits, and any other
number with its two places. -/
inductive HasText : Json → String → Prop
  | string (text : String) : HasText (.string text) text
  | bool_true : HasText (.bool true) "true"
  | bool_false : HasText (.bool false) "false"
  | integer (n : Int) : HasText (.integer n) (Int.repr n)
  | real (x : Binary64) : HasText (.real x) x.twoPlaces

theorem scalarText?_eq_some_iff {json : Json} {text : String} : json.scalarText? = some text ↔ json.HasText text := by
  constructor
  · intro h
    cases json with
    | null => cases h
    | array _ => cases h
    | object _ => cases h
    | bool b =>
      cases h
      cases b with
      | true => exact .bool_true
      | false => exact .bool_false
    | integer n => cases h; exact .integer n
    | real x => cases h; exact .real x
    | string text => cases h; exact .string text
  · intro h
    cases h <;> rfl

theorem isScalar_iff {json : Json} : json.IsScalar ↔ ∃ text, json.HasText text := by
  simp only [← scalarText?_eq_some_iff]
  cases json <;> simp [IsScalar, sort, scalarText?]

theorem not_isScalar_iff {json : Json} : ¬json.IsScalar ↔ json.scalarText? = none := by
  rw [isScalar_iff, Option.eq_none_iff_forall_ne_some]
  simp [scalarText?_eq_some_iff]

theorem HasText.unique {json : Json} {text text' : String} (h : json.HasText text) (h' : json.HasText text') :
    text = text' := by
  rw [← scalarText?_eq_some_iff] at h h'
  exact Option.some.inj (h.symm.trans h')

theorem not_hasText {json : Json} (h : json.scalarText? = none) (text : String) : ¬json.HasText text := by
  rw [← scalarText?_eq_some_iff, h]
  exact nofun

/-- The field that the object has for a part of a codec is a text, or the part is missing. -/
def PartIs (fields : List (String × Json)) (part : String) : Option String → Prop
  | some text => (part, string text) ∈ entries fields
  | none => ∀ json, (part, json) ∉ entries fields

def IsCodec (fields : List (String × Json)) : Prop :=
  ∀ part ∈ ["codec", "profile", "level"], ∀ json, (part, json) ∈ entries fields → json.sort = .string

inductive IsRepresentable (key : String) : Json → Prop
  | scalar {json : Json} (h : json.IsScalar) : IsRepresentable key json
  | list {items : List Json} (h : ∀ item ∈ items, item.IsScalar) : IsRepresentable key (.array items)
  | codec {fields : List (String × Json)} (hkey : key = Parameter.videoCodec.name) (h : IsCodec fields) :
      IsRepresentable key (.object fields)

/-- What a parameter holds for a value of a document. -/
inductive Converts (key : String) : Json → Value → Prop
  | scalar {json : Json} {text : String} (h : json.HasText text) : Converts key json (.scalar text)
  | list {items : List Json} {texts : List String} (h : List.Forall₂ HasText items texts) :
      Converts key (.array items) (.list texts)
  | codec {fields : List (String × Json)} {name profile level : Option String}
      (hkey : key = Parameter.videoCodec.name) (hname : PartIs fields "codec" name)
      (hprofile : PartIs fields "profile" profile) (hlevel : PartIs fields "level" level) :
      Converts key (.object fields) (.codec ⟨name, profile, level⟩)

/-! ## Values that pass the checks -/

/-- A dollar sign and a letter, followed by letters and digits only. -/
def IsLegalName (key : String) : Prop :=
  ∃ c rest, key.toList = '$' :: c :: rest ∧ c.isAlpha = true ∧ ∀ d ∈ rest, d.isAlphanum = true

theorem isLegalName_iff {key : String} : IsLegalName key ↔ isVariableName key = true := isVariableName_iff.symm

/-- Without blanks around it, the text is a number. -/
def Spells (text : String) (n : Binary64) : Prop := Binary64.read? (String.ofList (trim text.toList)) = some n

structure PassesChecks (key : String) (json : Json) : Prop where
  variable_name : key.toList.head? = some '$' → IsLegalName key
  offset (items : List Json) : key = Parameter.offset.name → json = .array items → 2 ≤ items.length
  interval (text : String) (n : Binary64) : key = Parameter.keyframeInterval.name → json.HasText text →
    Spells text n → n.Above 0

/-- Other keys have no checks. -/
theorem passesChecks_of_ne {key : String} (json : Json) (hdollar : key.toList.head? ≠ some '$')
    (hoffset : key ≠ Parameter.offset.name) (hinterval : key ≠ Parameter.keyframeInterval.name) :
    PassesChecks key json where
  variable_name h := absurd h hdollar
  offset _ h := absurd h hoffset
  interval _ _ h := absurd h hinterval

def IsAccepted (key : String) (json : Json) : Prop := IsRepresentable key json ∧ PassesChecks key json

/-! ## Faults -/

inductive ShapeFault (key : String) : Json → Error → Prop
  | item {items earlier later : List Json} {item : Json} (h : items = earlier ++ item :: later)
      (hbefore : ∀ i ∈ earlier, i.IsScalar) (hitem : ¬item.IsScalar) :
      ShapeFault key (.array items) (.unsupportedItem key item.sort)
  | object {fields : List (String × Json)} (h : ¬IsRepresentable key (.object fields)) :
      ShapeFault key (.object fields) (.unsupportedValue key .object)

@[mk_iff]
inductive CheckFault (key : String) (json : Json) : Error → Prop
  | variable_name (h : key.toList.head? = some '$') (hname : ¬IsLegalName key) :
      CheckFault key json (.variableName key)
  | offset {items : List Json} (hkey : key = Parameter.offset.name) (h : json = .array items)
      (hcount : items.length < 2) : CheckFault key json (.offsetCount items.length)
  | interval {text : String} {n : Binary64} (hkey : key = Parameter.keyframeInterval.name)
      (h : json.HasText text) (hread : Spells text n) (hn : ¬n.Above 0) :
      CheckFault key json (.keyframeInterval n)

/-- The shape of a value is looked at before the checks are made. -/
def Offends (key : String) (json : Json) (e : Error) : Prop :=
  ShapeFault key json e ∨ IsRepresentable key json ∧ CheckFault key json e

/-! ## Documents -/

inductive IsDocument : Json → Prop
  | object {fields : List (String × Json)} (h : ∀ entry ∈ entries fields, IsAccepted entry.1 entry.2) :
      IsDocument (.object fields)
  | array {items : List Json} (h : ∀ item ∈ items, IsDocument item) : IsDocument (.array items)

theorem isDocument_object_iff {fields : List (String × Json)} :
    IsDocument (.object fields) ↔ ∀ entry ∈ entries fields, IsAccepted entry.1 entry.2 := by
  constructor
  · rintro (h | -)
    exact h
  · exact .object

theorem isDocument_array_iff {items : List Json} : IsDocument (.array items) ↔ ∀ item ∈ items, IsDocument item := by
  constructor
  · rintro (- | h)
    exact h
  · exact .array

theorem IsDocument.object_or_array {json : Json} (h : IsDocument json) :
    (∃ fields, json = .object fields) ∨ ∃ items, json = .array items := by
  cases h with
  | object _ => exact .inl ⟨_, rfl⟩
  | array _ => exact .inr ⟨_, rfl⟩

/-- An object is a segment with a parameter for each of its entries, and an array is a chain. -/
inductive Describes : Json → Transformation → Prop
  | object {fields : List (String × Json)} {parameters : List (String × Value)}
      (h : List.Forall₂ (fun entry p => p.1 = entry.1 ∧ Converts entry.1 entry.2 p.2) (entries fields) parameters) :
      Describes (.object fields) { chained := [], current := ⟨parameters, none, none⟩ }
  | array {items : List Json} {ts : List Transformation} (h : List.Forall₂ Describes items ts) :
      Describes (.array items) { chained := ts, current := ⟨[], none, none⟩ }

/-- The first thing that is wrong with a document, in the order in which it is read. -/
inductive FirstFault : Json → Error → Prop
  | root {json : Json} (hobject : ∀ fields, json ≠ .object fields) (harray : ∀ items, json ≠ .array items) :
      FirstFault json (.unsupportedRoot json.sort)
  | entry {fields earlier later : List (String × Json)} {key : String} {json : Json} {e : Error}
      (h : entries fields = earlier ++ (key, json) :: later)
      (hbefore : ∀ entry ∈ earlier, IsAccepted entry.1 entry.2) (hfault : Offends key json e) :
      FirstFault (.object fields) e
  | item {items earlier later : List Json} {item : Json} {e : Error} (h : items = earlier ++ item :: later)
      (hbefore : ∀ i ∈ earlier, IsDocument i) (hfault : FirstFault item e) : FirstFault (.array items) e

/-! ## Parts of a codec -/

theorem mem_entries_iff_valueAt? {fields : List (String × Json)} {key : String} {json : Json} :
    (key, json) ∈ entries fields ↔ valueAt? key (members fields) = some json ∧ json ≠ .null := by
  rw [mem_entries_iff, valueAt?_members]

theorem optionalText?_eq_some_iff {fields : List (String × Json)} {part : String} {text? : Option String} :
    optionalText? (valueAt? part (members fields)) = some text? ↔ PartIs fields part text? := by
  cases hv : valueAt? part (members fields) with
  | none => cases text? <;> simp [optionalText?, PartIs, mem_entries_iff_valueAt?, hv]
  | some json => cases json <;> cases text? <;> simp [optionalText?, PartIs, mem_entries_iff_valueAt?, hv]

theorem exists_partIs_iff {fields : List (String × Json)} {part : String} :
    (∃ text?, PartIs fields part text?) ↔ ∀ json, (part, json) ∈ entries fields → json.sort = .string := by
  simp only [← optionalText?_eq_some_iff, mem_entries_iff_valueAt?]
  cases hv : valueAt? part (members fields) with
  | none => simp [optionalText?]
  | some json => cases json <;> simp [optionalText?, sort]

theorem isCodec_iff {fields : List (String × Json)} : IsCodec fields ↔ (∃ name, PartIs fields "codec" name) ∧
    (∃ profile, PartIs fields "profile" profile) ∧ ∃ level, PartIs fields "level" level := by
  simp [IsCodec, exists_partIs_iff]

end Json

open Json

theorem Codec.ofJson?_object_eq_some_iff {fields : List (String × Json)} {c : Codec} :
    Codec.ofJson? (.object fields) = some c ↔
      PartIs fields "codec" c.name ∧ PartIs fields "profile" c.profile ∧ PartIs fields "level" c.level := by
  obtain ⟨name, profile, level⟩ := c
  simp only [← optionalText?_eq_some_iff]
  simp [Codec.ofJson?, Option.bind_eq_some_iff]

/-! ## Conversion -/

theorem itemOfJson_eq_ok_iff {key : String} {item : Json} {text : String} :
    itemOfJson key item = .ok text ↔ item.HasText text := by
  rw [← scalarText?_eq_some_iff, itemOfJson]
  cases item.scalarText? <;> simp

theorem exists_itemOfJson_iff {key : String} {item : Json} :
    (∃ text, itemOfJson key item = .ok text) ↔ item.IsScalar := by
  simp only [itemOfJson_eq_ok_iff, isScalar_iff]

theorem itemOfJson_eq_error_iff {key : String} {item : Json} {e : Error} :
    itemOfJson key item = .error e ↔ ¬item.IsScalar ∧ e = .unsupportedItem key item.sort := by
  rw [not_isScalar_iff]
  unfold itemOfJson
  cases item.scalarText? <;> simp [eq_comm]

namespace Value

variable {key : String} {json : Json}

theorem ofJson_of_hasText {text : String} (h : json.HasText text) : ofJson key json = .ok (some (scalar text)) := by
  cases h <;> rfl

theorem ofJson_eq_some_iff {v : Value} : ofJson key json = .ok (some v) ↔ Converts key json v := by
  constructor
  · intro h
    cases json with
    | null => cases h
    | array items =>
      rw [ofJson, map_ok_iff] at h
      obtain ⟨texts, htexts, heq⟩ := h
      cases heq
      exact .list (by simpa only [itemOfJson_eq_ok_iff] using mapM_ok_iff.mp htexts)
    | object fields =>
      rw [ofJson] at h
      by_cases hkey : key = Parameter.videoCodec.name
      · rw [if_pos hkey] at h
        cases hc : Codec.ofJson? (.object fields) with
        | none => rw [hc] at h; cases h
        | some c =>
          rw [hc] at h
          cases h
          obtain ⟨hname, hprofile, hlevel⟩ := Codec.ofJson?_object_eq_some_iff.mp hc
          exact .codec hkey hname hprofile hlevel
      · rw [if_neg hkey] at h
        cases h
    | bool _ => cases h; exact .scalar (scalarText?_eq_some_iff.mp rfl)
    | integer n => cases h; exact .scalar (.integer n)
    | real x => cases h; exact .scalar (.real x)
    | string text => cases h; exact .scalar (.string text)
  · intro h
    cases h with
    | scalar h => exact ofJson_of_hasText h
    | list h =>
      rw [ofJson, mapM_ok_iff.mpr (by simpa only [itemOfJson_eq_ok_iff] using h)]
      rfl
    | codec hkey hname hprofile hlevel =>
      rw [ofJson, if_pos hkey, Codec.ofJson?_object_eq_some_iff (c := ⟨_, _, _⟩) |>.mpr ⟨hname, hprofile, hlevel⟩]

theorem ofJson_eq_none_iff : ofJson key json = .ok none ↔ json = .null := by
  cases json with
  | null => simp [ofJson]
  | array items => simp [ofJson, map_ok_iff]
  | object fields => simp only [ofJson]; split <;> simp
  | bool _ => simp [ofJson, scalarText?]
  | integer _ => simp [ofJson, scalarText?]
  | real _ => simp [ofJson, scalarText?]
  | string _ => simp [ofJson, scalarText?]

theorem exists_converts_iff : (∃ v, Converts key json v) ↔ IsRepresentable key json := by
  have hlist : ∀ items : List Json,
      (∃ texts, List.Forall₂ HasText items texts) ↔ ∀ item ∈ items, item.IsScalar := by
    intro items
    have htexts : ∀ texts, List.Forall₂ HasText items texts ↔ items.mapM (itemOfJson key) = .ok texts := by
      intro texts
      simp only [mapM_ok_iff, itemOfJson_eq_ok_iff]
    simp only [htexts, exists_mapM_ok_iff, exists_itemOfJson_iff]
  constructor
  · rintro ⟨v, h⟩
    cases h with
    | scalar h => exact .scalar (isScalar_iff.mpr ⟨_, h⟩)
    | list h => exact .list ((hlist _).mp ⟨_, h⟩)
    | codec hkey hname hprofile hlevel => exact .codec hkey (isCodec_iff.mpr ⟨⟨_, hname⟩, ⟨_, hprofile⟩, _, hlevel⟩)
  · intro h
    cases h with
    | scalar h =>
      obtain ⟨text, htext⟩ := isScalar_iff.mp h
      exact ⟨_, .scalar htext⟩
    | list h =>
      obtain ⟨texts, htexts⟩ := (hlist _).mpr h
      exact ⟨_, .list htexts⟩
    | codec hkey h =>
      obtain ⟨⟨_, hname⟩, ⟨_, hprofile⟩, _, hlevel⟩ := isCodec_iff.mp h
      exact ⟨_, .codec hkey hname hprofile hlevel⟩

theorem ofJson_eq_error_iff {e : Error} : ofJson key json = .error e ↔ ShapeFault key json e := by
  constructor
  · intro h
    cases json with
    | array items =>
      rw [ofJson, map_error_iff, mapM_error_iff] at h
      obtain ⟨earlier, item, later, hitems, hbefore, hitem⟩ := h
      obtain ⟨hfault, rfl⟩ := itemOfJson_eq_error_iff.mp hitem
      exact .item hitems (fun i hi => exists_itemOfJson_iff.mp (hbefore i hi)) hfault
    | object fields =>
      have hnone : ¬IsRepresentable key (.object fields) := by
        rw [← exists_converts_iff]
        rintro ⟨v, hv⟩
        rw [ofJson_eq_some_iff.mpr hv] at h
        cases h
      rw [ofJson] at h
      split at h
      · cases h
      · cases h
        exact .object hnone
    | _ => cases h
  · intro h
    cases h with
    | item h hbefore hitem =>
      rw [ofJson, mapM_error_iff.mpr ⟨_, _, _, h, fun i hi => exists_itemOfJson_iff.mpr (hbefore i hi),
        itemOfJson_eq_error_iff.mpr ⟨hitem, rfl⟩⟩]
      rfl
    | @object fields h =>
      have hnone : ∀ c, ofJson key (.object fields) ≠ .ok (some (codec c)) :=
        fun c hc => h (exists_converts_iff.mp ⟨_, ofJson_eq_some_iff.mp hc⟩)
      rw [ofJson] at hnone ⊢
      split
      · next c hc => simp [hc] at hnone
      · rfl

end Value

/-! ## Checks -/

theorem checkOffsetCount_eq_error_iff {count : Nat} {e : Error} :
    checkOffsetCount count = .error e ↔ count < 2 ∧ e = .offsetCount count := by
  unfold checkOffsetCount
  by_cases h : count < 2
  · rw [if_pos h, and_iff_right h, Except.error.injEq, eq_comm]
  · rw [if_neg h]
    exact iff_of_false (fun hok => by cases hok) fun hcount => h hcount.1

theorem checkInterval_eq_error_iff {x : Binary64} {e : Error} :
    checkInterval x = .error e ↔ ¬x.Above 0 ∧ e = .keyframeInterval x := by
  rw [Binary64.above_zero_iff, checkInterval]
  by_cases h : x.isPositive = true <;> simp [h, eq_comm]

theorem checkIntervalText_eq_error_iff {text : String} {e : Error} : checkIntervalText text = .error e ↔
    ∃ n, Spells text n ∧ ¬n.Above 0 ∧ e = .keyframeInterval n := by
  unfold checkIntervalText Spells readNumber?
  cases Binary64.read? (String.ofList (trim text.toList)) with
  | none => simp
  | some n => simp [checkInterval_eq_error_iff]

section
variable {key : String}

theorem ne_of_dollar (h : key.toList.head? = some '$') :
    key ≠ Parameter.offset.name ∧ key ≠ Parameter.keyframeInterval.name := by
  constructor
  · rintro rfl
    exact absurd h (by decide)
  · rintro rfl
    exact absurd h (by decide)

/-- A user variable has no check but that of its name. -/
theorem checkParameter_of_dollar (h : key.toList.head? = some '$') (v : Value) :
    checkParameter key v = checkVariableName key := by
  obtain ⟨hoffset, hinterval⟩ := ne_of_dollar h
  unfold checkParameter
  rw [if_pos h]
  cases checkVariableName key with
  | error e => rfl
  | ok _ => cases v <;> simp [hoffset, hinterval, bind, Except.bind, pure, Except.pure]

theorem checkParameter_eq_error_iff {json : Json} {v : Value} (h : Converts key json v) {e : Error} :
    checkParameter key v = .error e ↔ CheckFault key json e := by
  rw [checkFault_iff]
  -- no more than one of the three checks applies to a key
  by_cases hdollar : key.toList.head? = some '$'
  · obtain ⟨hoffset, hinterval⟩ := ne_of_dollar hdollar
    rw [checkParameter_of_dollar hdollar, checkVariableName]
    cases hname : isVariableName key <;> simp [hdollar, hoffset, hinterval, isLegalName_iff, hname, eq_comm]
  · unfold checkParameter
    simp only [hdollar, if_false, false_and, false_or, pure, Except.pure]
    cases h with
    | @scalar json text htext =>
      have harray : ∀ items, json ≠ .array items := by
        rintro items rfl
        cases htext
      have honly : ∀ other, json.HasText other ↔ other = text := by
        intro other
        constructor
        · exact fun hother => hother.unique htext
        · intro heq
          rw [heq]
          exact htext
      by_cases hkey : key = Parameter.keyframeInterval.name
      · simp [hkey, harray, honly, checkIntervalText_eq_error_iff]
      · simp [hkey, harray]
    | @list items texts htexts =>
      have hnone : ∀ text, ¬HasText (.array items) text := not_hasText rfl
      by_cases hkey : key = Parameter.offset.name
      · simp [hkey, htexts.length_eq, checkOffsetCount_eq_error_iff, hnone]
      · simp [hkey, hnone]
    | @codec fields =>
      have hnone : ∀ text, ¬HasText (.object fields) text := not_hasText rfl
      simp [hnone]

theorem passesChecks_iff {json : Json} : PassesChecks key json ↔ ∀ e, ¬CheckFault key json e := by
  constructor
  · intro h e hfault
    cases hfault with
    | variable_name hdollar hname => exact absurd (h.variable_name hdollar) (by simp [hname])
    | offset hkey hitems hcount => exact absurd (h.offset _ hkey hitems) (Nat.not_le.mpr hcount)
    | interval hkey htext hread hn => exact hn (h.interval _ _ hkey htext hread)
  · intro h
    refine ⟨fun hdollar => ?_, fun items hkey hitems => ?_, fun text n hkey htext hread => ?_⟩
    · by_contra hname
      exact h _ (.variable_name hdollar (by simpa using hname))
    · by_contra hcount
      exact h _ (.offset hkey hitems (Nat.not_le.mp hcount))
    · by_contra hn
      exact h _ (.interval hkey htext hread hn)

theorem checkParameter_eq_ok_iff {json : Json} {v : Value} (h : Converts key json v) :
    checkParameter key v = .ok () ↔ PassesChecks key json := by
  simp only [passesChecks_iff, ← checkParameter_eq_error_iff h]
  cases checkParameter key v <;> simp

end

/-! ## Entries -/

/-- The parameter that an entry gives. An entry is never `null`. -/
def parameterOfJson (entry : String × Json) : Except Error (String × Value) := do
  match ← Value.ofJson entry.1 entry.2 with
  | some v =>
    checkParameter entry.1 v
    return (entry.1, v)
  | none => .error (.unsupportedValue entry.1 .null)

theorem parametersOfJson_eq : ∀ fields : List (String × Json),
    parametersOfJson fields = (fields.filter (·.2.sort ≠ .null)).mapM parameterOfJson
  | [] => rfl
  | (key, json) :: rest => by
    have ih := parametersOfJson_eq rest
    rw [parametersOfJson, ih]
    by_cases hnull : json = .null
    · rw [List.filter_cons_of_neg (by simp [hnull, sort]), Value.ofJson_eq_none_iff.mpr hnull]
      rfl
    · rw [List.filter_cons_of_pos (by simpa [sort_eq_null_iff] using hnull), List.mapM_cons, parameterOfJson]
      cases hv : Value.ofJson key json with
      | error e => rfl
      | ok v? =>
        cases v? with
        | none => exact absurd (Value.ofJson_eq_none_iff.mp hv) hnull
        | some v => cases hc : checkParameter key v <;> simp [bind, Except.bind, pure, Except.pure, hc]

theorem parametersOfJson_members (fields : List (String × Json)) :
    parametersOfJson (members fields) = (entries fields).mapM parameterOfJson := parametersOfJson_eq (members fields)

section
variable {entry : String × Json}

theorem parameterOfJson_eq_ok_iff {p : String × Value} : parameterOfJson entry = .ok p ↔
    IsAccepted entry.1 entry.2 ∧ p.1 = entry.1 ∧ Converts entry.1 entry.2 p.2 := by
  have hok : parameterOfJson entry = .ok p ↔ ∃ v, Value.ofJson entry.1 entry.2 = .ok (some v) ∧
      checkParameter entry.1 v = .ok () ∧ p = (entry.1, v) := by
    rw [parameterOfJson]
    cases Value.ofJson entry.1 entry.2 with
    | error e => simp [bind, Except.bind]
    | ok v? =>
      cases v? with
      | none => simp [bind, Except.bind]
      | some v => cases hc : checkParameter entry.1 v <;> simp [bind, Except.bind, pure, Except.pure, hc, eq_comm]
  rw [hok]
  constructor
  · rintro ⟨v, hv, hc, rfl⟩
    have hconverts := Value.ofJson_eq_some_iff.mp hv
    exact ⟨⟨Value.exists_converts_iff.mp ⟨v, hconverts⟩, (checkParameter_eq_ok_iff hconverts).mp hc⟩, rfl, hconverts⟩
  · rintro ⟨⟨-, hc⟩, hkey, hconverts⟩
    exact ⟨p.2, Value.ofJson_eq_some_iff.mpr hconverts, (checkParameter_eq_ok_iff hconverts).mpr hc, Prod.ext hkey rfl⟩

theorem exists_parameterOfJson_iff : (∃ p, parameterOfJson entry = .ok p) ↔ IsAccepted entry.1 entry.2 := by
  simp only [parameterOfJson_eq_ok_iff]
  constructor
  · rintro ⟨-, h, -⟩
    exact h
  · intro h
    obtain ⟨v, hv⟩ := Value.exists_converts_iff.mpr h.1
    exact ⟨(entry.1, v), h, rfl, hv⟩

theorem parameterOfJson_eq_error_iff (h : entry.2 ≠ .null) {e : Error} :
    parameterOfJson entry = .error e ↔ Offends entry.1 entry.2 e := by
  have herror : parameterOfJson entry = .error e ↔ Value.ofJson entry.1 entry.2 = .error e ∨
      ∃ v, Value.ofJson entry.1 entry.2 = .ok (some v) ∧ checkParameter entry.1 v = .error e := by
    rw [parameterOfJson]
    cases hv : Value.ofJson entry.1 entry.2 with
    | error e => simp [bind, Except.bind]
    | ok v? =>
      cases v? with
      | none => exact absurd (Value.ofJson_eq_none_iff.mp hv) h
      | some v => cases hc : checkParameter entry.1 v <;> simp [bind, Except.bind, pure, Except.pure, hc]
  rw [herror, Value.ofJson_eq_error_iff, Offends]
  refine or_congr_right ?_
  rw [← Value.exists_converts_iff]
  simp only [Value.ofJson_eq_some_iff]
  constructor
  · rintro ⟨v, hconverts, hc⟩
    exact ⟨⟨v, hconverts⟩, (checkParameter_eq_error_iff hconverts).mp hc⟩
  · rintro ⟨⟨v, hconverts⟩, hfault⟩
    exact ⟨v, hconverts, (checkParameter_eq_error_iff hconverts).mpr hfault⟩

end

/-! ## Objects and arrays -/

theorem Json.document_induction {motive : Json → Prop} (object : ∀ fields, motive (.object fields))
    (array : ∀ items, (∀ item ∈ items, motive item) → motive (.array items))
    (other : ∀ json, (∀ fields, json ≠ .object fields) → (∀ items, json ≠ .array items) → motive json) :
    ∀ json, motive json
  | .object fields => object fields
  | .array items => array items fun item _ => document_induction object array other item
  | .null => other _ (by simp) (by simp)
  | .bool _ => other _ (by simp) (by simp)
  | .integer _ => other _ (by simp) (by simp)
  | .real _ => other _ (by simp) (by simp)
  | .string _ => other _ (by simp) (by simp)

theorem forall₂_congr_of_mem {α β : Type} {R S : α → β → Prop} : ∀ {as : List α} {bs : List β},
    (∀ a ∈ as, ∀ b, R a b ↔ S a b) → (List.Forall₂ R as bs ↔ List.Forall₂ S as bs)
  | [], bs, _ => by rw [List.forall₂_nil_left_iff, List.forall₂_nil_left_iff]
  | a :: as, [], _ => by rw [List.forall₂_nil_right_iff, List.forall₂_nil_right_iff]
  | a :: as, b :: bs, h => by
    rw [List.forall₂_cons, List.forall₂_cons, h a (List.mem_cons_self ..),
      forall₂_congr_of_mem fun a' ha => h a' (List.mem_cons_of_mem _ ha)]

namespace Transformation

theorem ofJsonItems_eq : ∀ items : List Json, ofJsonItems items = items.mapM ofJson
  | [] => by rw [ofJsonItems]; rfl
  | item :: items => by rw [ofJsonItems, ofJsonItems_eq items, List.mapM_cons]

theorem ofJson_of_other {json : Json} (hobject : ∀ fields, json ≠ .object fields)
    (harray : ∀ items, json ≠ .array items) : ofJson json = .error (.unsupportedRoot json.sort) := by
  cases json with
  | object fields => exact absurd rfl (hobject fields)
  | array items => exact absurd rfl (harray items)
  | _ => rw [ofJson]; rfl

theorem ofJson_object (fields : List (String × Json)) :
    ofJson (.object fields) = ((entries fields).mapM parameterOfJson).map ofParameters := by
  rw [ofJson, parametersOfJson_members]

theorem ofJson_array (items : List Json) : ofJson (.array items) = (items.mapM ofJson).map ofChain := by
  rw [ofJson, ofJsonItems_eq]

theorem exists_ofJson_iff {json : Json} : (∃ t, ofJson json = .ok t) ↔ IsDocument json := by
  induction json using Json.document_induction with
  | object fields =>
    rw [ofJson_object, exists_map_ok_iff, exists_mapM_ok_iff, isDocument_object_iff]
    simp only [exists_parameterOfJson_iff]
  | array items ih =>
    rw [ofJson_array, exists_map_ok_iff, exists_mapM_ok_iff, forall₂_congr ih, isDocument_array_iff]
  | other json hobject harray =>
    rw [ofJson_of_other hobject harray]
    refine iff_of_false (by simp) fun h => ?_
    obtain ⟨fields, heq⟩ | ⟨items, heq⟩ := h.object_or_array
    · exact hobject fields heq
    · exact harray items heq

theorem ofParameters_of_nodup {parameters : List (String × Value)} (h : (parameters.map Prod.fst).Nodup) :
    ofParameters parameters = { current := { parameters := parameters } } := by
  rw [ofParameters_eq, upsertAll_of_nodup h, List.nil_append]

theorem keys_eq_of_forall₂ {entries : List (String × Json)} {parameters : List (String × Value)}
    (h : List.Forall₂ (fun entry p => p.1 = entry.1 ∧ Converts entry.1 entry.2 p.2) entries parameters) :
    parameters.map Prod.fst = entries.map Prod.fst := by
  induction h with
  | nil => rfl
  | cons h _ ih => rw [List.map_cons, List.map_cons, h.1, ih]

theorem isRepresentable_of_forall₂ {entries : List (String × Json)} {parameters : List (String × Value)}
    (h : List.Forall₂ (fun entry p => p.1 = entry.1 ∧ Converts entry.1 entry.2 p.2) entries parameters) :
    ∀ entry ∈ entries, IsRepresentable entry.1 entry.2 := by
  induction h with
  | nil => exact List.forall_mem_nil _
  | cons h _ ih => exact List.forall_mem_cons.mpr ⟨Value.exists_converts_iff.mp ⟨_, h.2⟩, ih⟩

theorem ofJson_eq_ok_iff {json : Json} {t : Transformation} :
    ofJson json = .ok t ↔ IsDocument json ∧ Describes json t := by
  induction json using Json.document_induction generalizing t with
  | object fields =>
    have hkept : ∀ {parameters},
        List.Forall₂ (fun entry p => p.1 = entry.1 ∧ Converts entry.1 entry.2 p.2) (entries fields) parameters →
          ofParameters parameters = { current := { parameters := parameters } } := by
      intro parameters h
      -- keys ascend, so no parameter takes the place of another
      refine ofParameters_of_nodup ?_
      rw [keys_eq_of_forall₂ h]
      exact (nodup_keys_members fields).sublist (List.filter_sublist.map Prod.fst)
    rw [ofJson_object, map_ok_iff]
    simp only [mapM_ok_iff, parameterOfJson_eq_ok_iff, List.forall₂_and_left]
    constructor
    · rintro ⟨parameters, ⟨haccepted, h⟩, rfl⟩
      rw [hkept h]
      exact ⟨.object haccepted, .object h⟩
    · rintro ⟨haccepted | -, h⟩
      cases h with
      | object h => exact ⟨_, ⟨haccepted, h⟩, (hkept h).symm⟩
  | array items ih =>
    have hitems : ∀ {ts}, List.Forall₂ (fun item t => ofJson item = .ok t) items ts ↔
        (∀ item ∈ items, IsDocument item) ∧ List.Forall₂ Describes items ts := by
      intro ts
      rw [forall₂_congr_of_mem fun item hitem _ => ih item hitem, List.forall₂_and_left]
    rw [ofJson_array, map_ok_iff]
    simp only [mapM_ok_iff, hitems]
    constructor
    · rintro ⟨ts, ⟨haccepted, h⟩, rfl⟩
      exact ⟨.array haccepted, .array h⟩
    · rintro ⟨- | haccepted, h⟩
      cases h with
      | array h => exact ⟨_, ⟨haccepted, h⟩, rfl⟩
  | other json hobject harray =>
    rw [ofJson_of_other hobject harray]
    refine iff_of_false (by simp) fun h => ?_
    obtain ⟨fields, heq⟩ | ⟨items, heq⟩ := h.1.object_or_array
    · exact hobject fields heq
    · exact harray items heq

theorem ofJson_eq_error_iff {json : Json} {e : Error} : ofJson json = .error e ↔ FirstFault json e := by
  induction json using Json.document_induction generalizing e with
  | object fields =>
    have hnull : ∀ {entry}, entry ∈ entries fields → entry.2 ≠ .null := fun h => (mem_entries_iff.mp h).2
    rw [ofJson_object, map_error_iff, mapM_error_iff]
    simp only [exists_parameterOfJson_iff]
    constructor
    · rintro ⟨earlier, entry, later, h, hbefore, hfault⟩
      have hmem : entry ∈ entries fields := by simp [h]
      exact .entry h hbefore ((parameterOfJson_eq_error_iff (hnull hmem)).mp hfault)
    · intro h
      cases h with
      | root hobject _ => exact absurd rfl (hobject fields)
      | entry h hbefore hfault =>
        refine ⟨_, _, _, h, hbefore, (parameterOfJson_eq_error_iff (hnull ?_)).mpr hfault⟩
        simp [h]
  | array items ih =>
    rw [ofJson_array, map_error_iff, mapM_error_iff]
    simp only [exists_ofJson_iff]
    constructor
    · rintro ⟨earlier, item, later, h, hbefore, hfault⟩
      exact .item h hbefore ((ih item (by simp [h])).mp hfault)
    · intro h
      cases h with
      | root _ harray => exact absurd rfl (harray items)
      | item h hbefore hfault => exact ⟨_, _, _, h, hbefore, (ih _ (by simp [h])).mpr hfault⟩
  | other json hobject harray =>
    rw [ofJson_of_other hobject harray]
    constructor
    · intro h
      cases h
      exact .root hobject harray
    · intro h
      cases h with
      | root _ _ => rfl
      | entry _ _ _ => exact absurd rfl (hobject _)
      | item _ _ _ => exact absurd rfl (harray _)

/-- A document is accepted if its entries are, and then it describes what is read from it; if it is not accepted, the
error is its first fault. The entries of an object ascend by the bytes of their keys, and each is the last field under
its key. -/
theorem ofJson_outcome (json : Json) : ((∃ t, ofJson json = .ok t) ↔ IsDocument json) ∧
    (∀ t, ofJson json = .ok t ↔ IsDocument json ∧ Describes json t) ∧
    (∀ e, ofJson json = .error e ↔ FirstFault json e) ∧
    ∀ fields : List (String × Json), (entries fields).Pairwise (fun a b => utf8 a.1 < utf8 b.1) ∧
      ∀ key value, (key, value) ∈ entries fields ↔
        (fields.findRev? (·.1 = key)).map Prod.snd = some value ∧ value ≠ .null := by
  refine ⟨exists_ofJson_iff, fun _ => ofJson_eq_ok_iff, fun _ => ofJson_eq_error_iff, fun fields => ?_⟩
  exact ⟨(pairwise_entries fields).imp lt_iff_utf8_lt.mp, fun key value => mem_entries_iff⟩

/-- Values of every sort, and keys that are out of order. -/
def mixedFields : List (String × Json) :=
  [("width", .integer 100), ("overlay", .null), ("zoom", .real (.finite false 1 (-3))), ("crop", .string "fill"),
    ("effect", .array [.string "sepia", .bool false, .integer (-8)]), ("responsive_width", .bool true),
    ("video_codec", .object [("profile", .null), ("codec", .string "h264")])]

def mixedParameters : List (String × Value) :=
  [("crop", .scalar "fill"), ("effect", .list ["sepia", "false", "-8"]), ("responsive_width", .scalar "true"),
    ("video_codec", .codec ⟨some "h264", none, none⟩), ("width", .scalar "100"), ("zoom", .scalar "0.12")]

theorem converts_mixedFields : List.Forall₂ (fun entry p => p.1 = entry.1 ∧ Converts entry.1 entry.2 p.2)
    (entries mixedFields) mixedParameters := by
  have hentries : entries mixedFields = [("crop", .string "fill"),
      ("effect", .array [.string "sepia", .bool false, .integer (-8)]), ("responsive_width", .bool true),
      ("video_codec", .object [("profile", .null), ("codec", .string "h264")]), ("width", .integer 100),
      ("zoom", .real (.finite false 1 (-3)))] := rfl
  have hminus : HasText (.integer (-8)) "-8" := .integer (-8)
  have hwhole : HasText (.integer 100) "100" := .integer 100
  have hplaces : HasText (.real (.finite false 1 (-3))) "0.12" := .real (.finite false 1 (-3))
  have heffect : List.Forall₂ HasText [.string "sepia", .bool false, .integer (-8)] ["sepia", "false", "-8"] :=
    .cons (.string _) (.cons .bool_false (.cons hminus .nil))
  have hvideo : Converts "video_codec" (.object [("profile", .null), ("codec", .string "h264")])
      (.codec ⟨some "h264", none, none⟩) := by
    have hcodec : entries [("profile", .null), ("codec", .string "h264")] = [("codec", .string "h264")] := rfl
    refine .codec rfl ?_ ?_ ?_ <;> simp [PartIs, hcodec]
  rw [hentries]
  exact .cons ⟨rfl, .scalar (.string _)⟩ (.cons ⟨rfl, .list heffect⟩ (.cons ⟨rfl, .scalar .bool_true⟩
    (.cons ⟨rfl, hvideo⟩ (.cons ⟨rfl, .scalar hwhole⟩ (.cons ⟨rfl, .scalar hplaces⟩ .nil)))))

theorem isDocument_mixedFields : IsDocument (.object mixedFields) := by
  have hkeys : ∀ key ∈ mixedParameters.map Prod.fst, key.toList.head? ≠ some '$' ∧ key ≠ Parameter.offset.name ∧
      key ≠ Parameter.keyframeInterval.name := by decide
  rw [keys_eq_of_forall₂ converts_mixedFields] at hkeys
  refine .object fun entry hentry => ⟨isRepresentable_of_forall₂ converts_mixedFields entry hentry, ?_⟩
  obtain ⟨hdollar, hoffset, hinterval⟩ := hkeys entry.1 (List.mem_map_of_mem hentry)
  exact passesChecks_of_ne entry.2 hdollar hoffset hinterval

/-- The values as they are converted, a number that is not above zero, and an item that is no scalar. -/
theorem ofJson_outcome_mixedFields :
    ofJson (.array [.object mixedFields, .array []]) =
      .ok { chained := [{ current := { parameters := mixedParameters } }, {}] } ∧
    ofJson (.object [("keyframe_interval", .integer (-5))]) = .error (.keyframeInterval (binaryOfInt (-5))) ∧
    ofJson (.array [.object mixedFields, .object [("tags", .array [.string "a", .array []])], .null]) =
      .error (.unsupportedItem "tags" .array) := by
  obtain ⟨-, hok, -⟩ := ofJson_outcome (.array [.object mixedFields, .array []])
  obtain ⟨-, -, hnumber, -⟩ := ofJson_outcome (.object [("keyframe_interval", .integer (-5))])
  obtain ⟨-, -, hitem, -⟩ :=
    ofJson_outcome (.array [.object mixedFields, .object [("tags", .array [.string "a", .array []])], .null])
  refine ⟨(hok _).mpr ⟨.array ?_, ?_⟩, (hnumber _).mpr ?_, (hitem _).mpr ?_⟩
  · simpa using ⟨isDocument_mixedFields, .array (List.forall_mem_nil _)⟩
  · exact .array (.cons (.object converts_mixedFields) (.cons (.array .nil) .nil))
  · have hread : Spells (Int.repr (-5)) (binaryOfInt (-5)) := readNumber?_repr (-5)
    have hnegative : ¬(binaryOfInt (-5)).Above 0 := by
      rw [Binary64.above_zero_iff, isPositive_binaryOfInt]
      decide
    have hscalar : IsScalar (.integer (-5)) := isScalar_iff.mpr ⟨_, .integer (-5)⟩
    have hfault : CheckFault "keyframe_interval" (.integer (-5)) (.keyframeInterval (binaryOfInt (-5))) :=
      .interval rfl (.integer (-5)) hread hnegative
    exact .entry rfl (List.forall_mem_nil _) (.inr ⟨.scalar hscalar, hfault⟩)
  · have hitems : [Json.string "a", .array []] = [.string "a"] ++ .array [] :: [] := rfl
    have hbefore : ∀ item ∈ [Json.string "a"], item.IsScalar :=
      List.forall_mem_singleton.mpr (isScalar_iff.mpr ⟨_, .string "a"⟩)
    have hfault : ShapeFault "tags" (.array [.string "a", .array []]) (.unsupportedItem "tags" .array) :=
      .item hitems hbefore (not_isScalar_iff.mpr rfl)
    have hobject : FirstFault (.object [("tags", .array [.string "a", .array []])]) (.unsupportedItem "tags" .array) :=
      .entry rfl (List.forall_mem_nil _) (.inl hfault)
    have hearlier : ∀ item ∈ [Json.object mixedFields], IsDocument item :=
      List.forall_mem_singleton.mpr isDocument_mixedFields
    exact .item rfl hearlier hobject

/-- Keys ascend, and the shape of a value is looked at before its items are counted. -/
example : ofJson (.object [("width", .object []), ("offset", .array [.null]), ("$a", .null)]) =
    .error (.unsupportedItem "offset" .null) := by rfl

end Transformation

end DeliveryPath
