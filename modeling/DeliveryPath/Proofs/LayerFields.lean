import Mathlib.Data.List.Induction
import DeliveryPath.Proofs.RequiredParts

/-!
# Setting the fields of a layer

However a layer is put together, each field holds what it was last given by a call that was not rejected
(`Layer.value_built`). The fields that a kind locks are therefore unset for good, and two ways to build a layer that
agree on the last value of every field give the same layer (`Layer.fields_built`).
-/

namespace DeliveryPath

namespace LayerKind

def locks (kind : LayerKind) : LayerField → Bool
  | .asset field => kind.locked.contains field
  | _ => false

theorem locks_iff {kind : LayerKind} {field : LayerField} :
    kind.locks field = true ↔ ∃ f ∈ kind.locked, field = .asset f := by
  cases field with
  | asset field => simp [locks]
  | style | text | url => simp [locks]

end LayerKind

/-- A setter and what it is given. -/
structure Call where
  field : LayerField
  value : String

/-- The calls to the field that the kind does not reject. -/
def acceptedCalls (kind : LayerKind) (field : LayerField) (calls : List Call) : List Call :=
  calls.filter fun call => !kind.locks call.field && call.field = field

def lastAccepted? (kind : LayerKind) (field : LayerField) (calls : List Call) : Option String :=
  (acceptedCalls kind field calls).getLast?.map Call.value

theorem acceptedCalls_concat (kind : LayerKind) (field : LayerField) (calls : List Call) (call : Call) :
    acceptedCalls kind field (calls ++ [call]) = acceptedCalls kind field calls ++
      if kind.locks call.field = false ∧ call.field = field then [call] else [] := by
  simp [acceptedCalls, List.filter_append, List.filter_cons]

theorem lastAccepted?_concat (kind : LayerKind) (field : LayerField) (calls : List Call) (call : Call) :
    lastAccepted? kind field (calls ++ [call]) =
      if kind.locks call.field = false ∧ call.field = field then some call.value
      else lastAccepted? kind field calls := by
  rw [lastAccepted?, acceptedCalls_concat]
  split
  · rw [List.getLast?_concat, Option.map_some]
  · rw [List.append_nil, lastAccepted?]

theorem lastAccepted?_of_locks {kind : LayerKind} {field : LayerField} (h : kind.locks field = true)
    (calls : List Call) : lastAccepted? kind field calls = none := by
  unfold lastAccepted? acceptedCalls
  rw [List.filter_eq_nil_iff.mpr, List.getLast?_nil, Option.map_none]
  intro call _ hcall
  simp only [Bool.and_eq_true, Bool.not_eq_true', decide_eq_true_eq] at hcall
  obtain ⟨hopen, rfl⟩ := hcall
  rw [h] at hopen
  cases hopen

namespace Layer

variable {l : Layer}

/-! ## One call -/

theorem set_of_locks {field : AssetField} (h : field ∈ l.kind.locked) (value : String) :
    l.set (.asset field) value = .error (.lockedField l.kind field) := by
  simp [set, h]

theorem set_of_not_locks {field : LayerField} (h : l.kind.locks field = false) (value : String) :
    l.set field value = .ok (l.put field value) := by
  cases field with
  | asset field =>
    have hfield : field ∉ l.kind.locked := by simpa [LayerKind.locks] using h
    simp [set, hfield]
  | style | text | url => rfl

theorem set_eq_error_iff {field : LayerField} {value : String} {e : Error} : l.set field value = .error e ↔
    ∃ f ∈ l.kind.locked, field = .asset f ∧ e = .lockedField l.kind f := by
  constructor
  · intro h
    cases hlocks : l.kind.locks field with
    | true =>
      obtain ⟨f, hf, rfl⟩ := LayerKind.locks_iff.mp hlocks
      rw [set_of_locks hf] at h
      exact ⟨f, hf, rfl, (Except.error.inj h).symm⟩
    | false =>
      rw [set_of_not_locks hlocks] at h
      cases h
  · intro h
    obtain ⟨f, hf, rfl, rfl⟩ := h
    exact set_of_locks hf value

/-- The layer after a call, which leaves it as it was if rejected. -/
def after (l : Layer) (call : Call) : Layer :=
  match l.set call.field call.value with
  | .ok changed => changed
  | .error _ => l

theorem after_of_locks {call : Call} (h : l.kind.locks call.field = true) : l.after call = l := by
  obtain ⟨f, hf, hfield⟩ := LayerKind.locks_iff.mp h
  rw [after, hfield, set_of_locks hf]

theorem after_of_not_locks {call : Call} (h : l.kind.locks call.field = false) :
    l.after call = l.put call.field call.value := by
  rw [after, set_of_not_locks h]

theorem kind_after (l : Layer) (call : Call) : (l.after call).kind = l.kind := by
  cases h : l.kind.locks call.field with
  | true => rw [after_of_locks h]
  | false => rw [after_of_not_locks h, kind_put]

theorem value_after (l : Layer) (call : Call) (field : LayerField) : (l.after call).value field =
    if l.kind.locks call.field = false ∧ call.field = field then some call.value else l.value field := by
  cases h : l.kind.locks call.field with
  | true => simp [after_of_locks h]
  | false =>
    rw [after_of_not_locks h, value_put]
    simp [eq_comm]

/-! ## Calls one after the other -/

/-- The layer that the calls leave of a new one. -/
def built (kind : LayerKind) (calls : List Call) : Layer := calls.foldl after (.ofKind kind)

theorem built_concat (kind : LayerKind) (calls : List Call) (call : Call) :
    built kind (calls ++ [call]) = (built kind calls).after call := by
  simp only [built, List.foldl_append, List.foldl_cons, List.foldl_nil]

theorem kind_built (kind : LayerKind) (calls : List Call) : (built kind calls).kind = kind := by
  induction calls using List.reverseRecOn with
  | nil => rfl
  | append_singleton calls call ih => rw [built_concat, kind_after, ih]

theorem value_built (kind : LayerKind) (calls : List Call) (field : LayerField) :
    (built kind calls).value field = lastAccepted? kind field calls := by
  -- calls are taken off the end, since the last one decides
  induction calls using List.reverseRecOn with
  | nil => rfl
  | append_singleton calls call ih => rw [built_concat, value_after, kind_built, lastAccepted?_concat, ih]

theorem value_built_of_locks {kind : LayerKind} {field : LayerField} (h : kind.locks field = true)
    (calls : List Call) : (built kind calls).value field = none := by
  rw [value_built, lastAccepted?_of_locks h]

theorem eq_of_value_eq {m : Layer} (hkind : l.kind = m.kind) (hvalue : ∀ field, l.value field = m.value field) :
    l = m := by
  cases l
  cases m
  simp only [mk.injEq]
  exact ⟨hkind, funext hvalue⟩

theorem built_eq_of_lastAccepted? {kind : LayerKind} {calls others : List Call}
    (h : ∀ field, lastAccepted? kind field calls = lastAccepted? kind field others) :
    built kind calls = built kind others := by
  apply eq_of_value_eq
  · rw [kind_built, kind_built]
  · intro field
    rw [value_built, value_built, h]

/-! ## What is left to show -/

/-- The public id with its folders separated by colons. -/
def flatId (id : String) : String := String.ofList (id.toList.map fun c => if c = '/' then ':' else c)

theorem publicId?_of_format_none (h : l.value (.asset .format) = none) :
    l.publicId? = (l.given? (.asset .publicId)).map flatId := by
  have hformat : l.given? (.asset .format) = none := by rw [given?, h, given]; rfl
  simp only [publicId?, hformat]
  rfl

theorem format_built_of_isText {kind : LayerKind} {calls : List Call} (h : (built kind calls).IsText) :
    (built kind calls).value (.asset .format) = none := by
  have hkind : kind = .text ∨ kind = .subtitles := by rwa [IsText, kind_built] at h
  obtain rfl | rfl := hkind <;> exact value_built_of_locks rfl calls

/-- However often and in whatever order the setters are called, just the calls to fields that the kind locks are
rejected, and those fields stay unset. Every field holds what it was last given, which settles the whole layer; what it
is written as has nothing of the locked fields. -/
theorem fields_built (kind : LayerKind) (calls : List Call) :
    (∀ (call : Call) (e : Error), (built kind calls).set call.field call.value = .error e ↔
      ∃ f ∈ kind.locked, call.field = .asset f ∧ e = .lockedField kind f) ∧
    (∀ f ∈ kind.locked, (built kind calls).value (.asset f) = none) ∧
    (∀ field, (built kind calls).value field = lastAccepted? kind field calls) ∧
    (∀ others, (∀ field, lastAccepted? kind field calls = lastAccepted? kind field others) →
      built kind calls = built kind others ∧ (built kind calls).render = (built kind others).render) ∧
    (∀ path, (built kind calls).render = .ok path ↔
      ∃ parts, (built kind calls).Written parts ∧ path = ":".intercalate parts) ∧
    ((built kind calls).IsText →
      (built kind calls).publicId? = ((built kind calls).given? (.asset .publicId)).map flatId) := by
  refine ⟨?_, ?_, value_built kind calls, ?_, fun path => render_eq_ok_iff,
    fun htext => publicId?_of_format_none (format_built_of_isText htext)⟩
  · intro call e
    rw [set_eq_error_iff, kind_built]
  · intro f hf
    exact value_built_of_locks (LayerKind.locks_iff.mpr ⟨f, hf, rfl⟩) calls
  · intro others hlast
    have hbuilt := built_eq_of_lastAccepted? hlast
    exact ⟨hbuilt, congrArg render hbuilt⟩

/-- Calls of which a video rejects one, and another is made void by the last. -/
def videoCalls : List Call :=
  [⟨.asset .publicId, "draft"⟩, ⟨.asset .resourceType, "raw"⟩, ⟨.asset .deliveryType, "private"⟩,
    ⟨.asset .publicId, "films/dog"⟩]

theorem fields_built_videoCalls :
    built .video videoCalls = built .video [⟨.asset .publicId, "films/dog"⟩, ⟨.asset .deliveryType, "private"⟩] ∧
    (built .video videoCalls).set (.asset .resourceType) "raw" = .error (.lockedField .video .resourceType) ∧
    (built .video videoCalls).render = .ok "video:private:films:dog" ∧
    (built .text videoCalls).publicId? = some "films:dog" := by
  obtain ⟨hset, -, -, hbuilt, hrender, -⟩ := fields_built .video videoCalls
  obtain ⟨-, -, -, -, -, hplain⟩ := fields_built .text videoCalls
  refine ⟨(hbuilt _ ?_).1, ?_, ?_, (hplain (.inl rfl)).trans (by decide)⟩
  · intro field
    cases field with
    | asset field => cases field <;> decide
    | style field => cases field <;> decide
    | text | url => decide
  · exact (hset ⟨.asset .resourceType, "raw"⟩ _).mpr ⟨.resourceType, by decide, rfl, rfl⟩
  · exact (hrender _).mpr ⟨["video", "private", "films:dog"], .video rfl (by decide), by decide⟩

end Layer

end DeliveryPath
