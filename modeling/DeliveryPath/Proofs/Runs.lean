import DeliveryPath.Proofs.Building

/-!
# Runs of calls

A transformation is built by a run of calls, among which blocks are opened and closed but not nested
(`Call.next?`). At every point of a run the open segment holds no marker, or the chain ends in the block that is
open (`Standing`). What stood in the chain before stays where it is, also when a block is closed.
-/

namespace DeliveryPath.Transformation

/-! ## Calls -/

inductive Call where
  | put (key : String) (value : Value)
  | setHtmlWidth (width : String)
  | setHtmlHeight (height : String)
  | chain
  | ifCondition (condition : String)
  | ifElse
  | endIf

namespace Call

def apply (t : Transformation) : Call → Transformation
  | put key value => t.add key value
  | setHtmlWidth width => t.setHtmlWidth width
  | setHtmlHeight height => t.setHtmlHeight height
  | chain => t.chain
  | ifCondition condition => t.ifCondition condition
  | ifElse => t.ifElse
  | endIf => t.endIf

/-- Whether a block is open after the call, if the call may come where one is or is not. -/
def next? (inside : Bool) : Call → Option Bool
  | put key _ => if key = Parameter.condition.name then none else some inside
  | setHtmlWidth _ | setHtmlHeight _ | chain => some inside
  | ifCondition condition =>
    if inside || condition = elseMarker || condition = endMarker then none else some true
  | ifElse => if inside then some true else none
  | endIf => if inside then some false else none

theorem next?_put {inside after : Bool} {key : String} {value : Value}
    (h : (put key value).next? inside = some after) :
    key ≠ Parameter.condition.name ∧ after = inside := by
  by_cases hk : key = Parameter.condition.name
  · rw [next?, if_pos hk] at h; cases h
  · rw [next?, if_neg hk] at h; cases h; exact ⟨hk, rfl⟩

theorem next?_ifCondition {inside after : Bool} {condition : String}
    (h : (ifCondition condition).next? inside = some after) :
    condition ≠ elseMarker ∧ condition ≠ endMarker ∧ inside = false ∧ after = true := by
  by_cases hc : (inside || condition = elseMarker || condition = endMarker) = true
  · rw [next?, if_pos hc] at h; cases h
  · rw [next?, if_neg hc] at h
    cases h
    simp only [Bool.or_eq_true, decide_eq_true_eq, not_or, Bool.not_eq_true] at hc
    exact ⟨hc.1.2, hc.2, hc.1.1, rfl⟩

theorem next?_true {after : Bool} {call : Call} (h : call.next? true = some after) :
    call ≠ endIf ∧ after = true ∨ call = endIf ∧ after = false := by
  cases call with
  | put key value => exact .inl ⟨by simp, (next?_put h).2⟩
  | ifCondition condition => exact absurd (next?_ifCondition h).2.2.1 (by simp)
  | endIf => cases h; exact .inr ⟨rfl, rfl⟩
  | setHtmlWidth _ => cases h; exact .inl ⟨by simp, rfl⟩
  | setHtmlHeight _ => cases h; exact .inl ⟨by simp, rfl⟩
  | chain => cases h; exact .inl ⟨by simp, rfl⟩
  | ifElse => cases h; exact .inl ⟨by simp, rfl⟩

/-- Whether the call closes the open segment, but not the block. -/
def splits : Call → Bool
  | chain | ifElse => true
  | _ => false

/-- The condition or the marker that the call leaves. -/
def marker? : Call → Option String
  | ifCondition condition => some condition
  | ifElse => some elseMarker
  | endIf => some endMarker
  | _ => none

def unmarked : Call → List Call
  | ifCondition _ => []
  | ifElse | endIf => [chain]
  | call => [call]

end Call

def run (t : Transformation) (calls : List Call) : Transformation := calls.foldl Call.apply t

/-- Whether a block is open after the calls, if each may come where it does. -/
def next? (inside : Bool) (calls : List Call) : Option Bool := calls.foldlM Call.next? inside

theorem run_cons (t : Transformation) (call : Call) (calls : List Call) :
    run t (call :: calls) = run (call.apply t) calls := rfl

theorem run_append (t : Transformation) (calls more : List Call) : run t (calls ++ more) = run (run t calls) more :=
  List.foldl_append

theorem next?_cons {inside after : Bool} {call : Call} {calls : List Call} :
    next? inside (call :: calls) = some after ↔
      ∃ between, call.next? inside = some between ∧ next? between calls = some after := by
  unfold next?
  rw [List.foldlM_cons]
  exact Option.bind_eq_some_iff

theorem next?_append {inside after : Bool} {calls more : List Call} :
    next? inside (calls ++ more) = some after ↔
      ∃ between, next? inside calls = some between ∧ next? between more = some after := by
  unfold next?
  rw [List.foldlM_append]
  exact Option.bind_eq_some_iff

theorem Built.apply {t : Transformation} (h : Built t) (call : Call) : Built (call.apply t) := by
  cases call with
  | put key value => exact h.add key value
  | setHtmlWidth width => exact h.setHtmlWidth width
  | setHtmlHeight height => exact h.setHtmlHeight height
  | chain => exact h.chain
  | ifCondition condition => exact h.ifCondition condition
  | ifElse => exact h.ifElse
  | endIf => exact h.endIf

theorem Built.run {t : Transformation} (h : Built t) (calls : List Call) : Built (run t calls) := by
  induction calls generalizing t with
  | nil => exact h
  | cons call calls ih => exact ih (h.apply call)

/-! ## The open block -/

/-- Behind `done`, the chain and the open segment make up the block with the condition; it has been split into
several segments or not. -/
inductive OpenBlock (condition : String) (done : List Transformation) : Bool → Transformation → Prop
  | whole {s} : s.get? Parameter.condition.name = some (.scalar condition) → OpenBlock condition done false ⟨done, s⟩
  | split {first rest s} : first.marker? = some condition → (∀ t ∈ rest, t.continuesBlock = true) →
      continuesBlock { current := s } = true → OpenBlock condition done true ⟨done ++ first :: rest, s⟩

theorem continuesBlock_of_get?_eq_none {t : Transformation}
    (h : t.current.get? Parameter.condition.name = none) : t.continuesBlock = true := by
  unfold continuesBlock marker? Segment.scalar?
  rw [h]; rfl

theorem continuesBlock_of_else {t : Transformation} (h : t.marker? = some elseMarker) : t.continuesBlock = true := by
  unfold continuesBlock
  rw [h]; simp

theorem opensBlock_of_marker? {t : Transformation} {condition : String} (h : t.marker? = some condition)
    (he : condition ≠ elseMarker) (hn : condition ≠ endMarker) : t.opensBlock = true := by
  unfold opensBlock
  rw [h]; simp [he, hn]

theorem OpenBlock.of_ifCondition {t : Transformation} (condition : String) :
    OpenBlock condition t.chained false (t.ifCondition condition) := by
  refine .whole ?_
  exact Segment.get?_put_self ..

section
variable {condition : String} {done : List Transformation} {spread : Bool} {t : Transformation}

theorem OpenBlock.with_current {s : Segment} (h : OpenBlock condition done spread t)
    (hs : s.get? Parameter.condition.name = t.current.get? Parameter.condition.name) :
    OpenBlock condition done spread { t with current := s } := by
  cases h with
  | whole hm => exact .whole (hs.trans hm)
  | @split first rest s' hm hr hc =>
    refine .split hm hr ?_
    unfold continuesBlock marker? Segment.scalar? at hc ⊢
    rw [hs]; exact hc

theorem OpenBlock.chain (h : OpenBlock condition done spread t) : OpenBlock condition done true t.chain := by
  cases h with
  | @whole s hm =>
    exact .split (marker?_of_get? hm) (by simp) (continuesBlock_of_get?_eq_none rfl)
  | @split first rest s hm hr hc =>
    unfold Transformation.chain
    rw [List.append_assoc, List.cons_append]
    refine .split hm ?_ (continuesBlock_of_get?_eq_none rfl)
    intro u hu
    rcases List.mem_append.mp hu with hu | hu
    · exact hr u hu
    · rw [List.mem_singleton.mp hu]; exact hc

theorem OpenBlock.with_else (h : OpenBlock condition done true t) :
    OpenBlock condition done true (t.ifCondition elseMarker) := by
  cases h with
  | split hm hr _ =>
    refine .split hm hr (continuesBlock_of_else (marker?_of_get? ?_))
    exact Segment.get?_put_self ..

/-- Calls other than those that begin or close a block go on with the block. -/
theorem OpenBlock.apply (h : OpenBlock condition done spread t) {call : Call} (hn : call.next? true = some true) :
    OpenBlock condition done (spread || call.splits) (call.apply t) := by
  have hsame : call.splits = false → OpenBlock condition done spread (call.apply t) →
      OpenBlock condition done (spread || call.splits) (call.apply t) := by
    intro hs hb
    rw [hs, Bool.or_false]; exact hb
  have hsplit : call.splits = true → OpenBlock condition done true (call.apply t) →
      OpenBlock condition done (spread || call.splits) (call.apply t) := by
    intro hs hb
    rw [hs, Bool.or_true]; exact hb
  cases call with
  | put key value =>
    refine hsame rfl (h.with_current ?_)
    rw [Segment.get?_put, if_neg (Call.next?_put hn).1]
  | setHtmlWidth width => exact hsame rfl (h.with_current rfl)
  | setHtmlHeight height => exact hsame rfl (h.with_current rfl)
  | chain => exact hsplit rfl h.chain
  | ifCondition c => exact absurd (Call.next?_ifCondition hn).2.2.1 (by simp)
  | ifElse => exact hsplit rfl h.chain.with_else
  | endIf => cases hn

theorem OpenBlock.run (h : OpenBlock condition done spread t) {calls : List Call} {after : Bool}
    (hn : next? true calls = some after) (hend : Call.endIf ∉ calls) :
    after = true ∧ OpenBlock condition done (spread || calls.any Call.splits) (run t calls) := by
  induction calls generalizing t spread with
  | nil =>
    cases hn
    rw [List.any_nil, Bool.or_false]
    exact ⟨rfl, h⟩
  | cons call calls ih =>
    rw [List.mem_cons, not_or] at hend
    obtain ⟨between, hcall, hcalls⟩ := next?_cons.mp hn
    rcases Call.next?_true hcall with ⟨-, rfl⟩ | ⟨heq, -⟩
    · have hrest := ih (h.apply hcall) hcalls hend.2
      rw [List.any_cons, ← Bool.or_assoc]
      exact hrest
    · exact absurd heq.symm hend.1

/-- What becomes of the block's segments when the block is closed. -/
theorem OpenBlock.chained_endIf (h : OpenBlock condition done spread t) (he : condition ≠ elseMarker)
    (hn : condition ≠ endMarker) : ∃ closed, t.chained = done ++ closed ∧ t.endIf.chained = done ++
      (if spread then (closed ++ [({ current := t.current } : Transformation)]).flatMap isolated
        else [{ current := t.current }]) ++ [{ current := .ofMarker endMarker }] := by
  rw [endIf_eq]
  cases h with
  | @whole s hm =>
    refine ⟨[], (List.append_nil done).symm, ?_⟩
    have ho := opensBlock_of_marker? (marker?_of_get? (t := { current := s }) hm) he hn
    exact congrArg (· ++ _) (isolateMarkers_concat ho done)
  | @split first rest s hm hr hc =>
    refine ⟨first :: rest, rfl, ?_⟩
    have hblock : EndsInBlock (done ++ first :: rest ++ [({ current := s } : Transformation)]) done first
        (rest ++ [{ current := s }]) := by
      refine ⟨by rw [List.append_assoc, List.cons_append], opensBlock_of_marker? hm he hn, ?_⟩
      rw [List.forall_mem_append, List.forall_mem_singleton]
      exact ⟨hr, hc⟩
    exact congrArg (· ++ _) (hblock.isolateMarkers (List.append_ne_nil_of_right_ne_nil rest (List.cons_ne_nil _ _)))

end

/-! ## Where a run stands -/

/-- Behind `done`, whether the chain ends in an open block. -/
inductive Standing (done : List Transformation) : Bool → Transformation → Prop
  | outside {later s} : s.get? Parameter.condition.name = none → Standing done false ⟨done ++ later, s⟩
  | inside {condition later spread t} : condition ≠ elseMarker → condition ≠ endMarker →
      OpenBlock condition (done ++ later) spread t → Standing done true t

section
variable {done : List Transformation} {inside after : Bool} {t : Transformation}

theorem Standing.of_get?_eq_none (h : t.current.get? Parameter.condition.name = none) :
    Standing t.chained false t := by
  obtain ⟨chained, current⟩ := t
  have hs : Standing chained false ⟨chained ++ [], current⟩ := .outside h
  rw [List.append_nil] at hs
  exact hs

theorem Standing.get?_eq_none (h : Standing done false t) : t.current.get? Parameter.condition.name = none := by
  cases h with
  | outside hs => exact hs

theorem Standing.exists_chained (h : Standing done inside t) : ∃ later, t.chained = done ++ later := by
  cases h with
  | @outside later s _ => exact ⟨later, rfl⟩
  | @inside condition later spread _ _ _ hb =>
    cases hb with
    | whole _ => exact ⟨later, rfl⟩
    | @split first rest s _ _ _ => exact ⟨later ++ first :: rest, by rw [List.append_assoc]⟩

theorem Standing.apply (h : Standing done inside t) {call : Call} (hn : call.next? inside = some after) :
    Standing done after (call.apply t) := by
  cases h with
  | @outside later s hs =>
    cases call with
    | put key value =>
      obtain ⟨hk, rfl⟩ := Call.next?_put hn
      refine .outside ?_
      rw [Segment.get?_put, if_neg hk]; exact hs
    | setHtmlWidth width => cases hn; exact .outside hs
    | setHtmlHeight height => cases hn; exact .outside hs
    | chain =>
      cases hn
      show Standing done false ⟨done ++ later ++ [{ current := s }], {}⟩
      rw [List.append_assoc]
      exact .outside rfl
    | ifCondition condition =>
      obtain ⟨he, hend, -, rfl⟩ := Call.next?_ifCondition hn
      exact .inside he hend (OpenBlock.of_ifCondition (t := ⟨done ++ later, s⟩) condition)
    | ifElse => cases hn
    | endIf => cases hn
  | @inside condition later spread _ he hend hb =>
    rcases Call.next?_true hn with ⟨-, rfl⟩ | ⟨rfl, rfl⟩
    · exact .inside he hend (hb.apply hn)
    · obtain ⟨closed, -, hc⟩ := hb.chained_endIf he hend
      show Standing done false ⟨t.endIf.chained, {}⟩
      rw [hc, List.append_assoc, List.append_assoc]
      exact .outside rfl

theorem Standing.run (h : Standing done inside t) {calls : List Call} (hn : next? inside calls = some after) :
    Standing done after (run t calls) := by
  induction calls generalizing t inside with
  | nil => cases hn; exact h
  | cons call calls ih =>
    obtain ⟨between, hcall, hcalls⟩ := next?_cons.mp hn
    exact ih (h.apply hcall) hcalls

end

end DeliveryPath.Transformation
