import DeliveryPath.Proofs.ComponentOrder
import DeliveryPath.Proofs.OperatorSpelling

/-!
# Expressions that begin with a token

Where a token and a separator begin a text, the token is replaced by its code, and what follows becomes compact by
itself (`Token.compact_written`). So a comparison comes out alike whether it is built or written in free form
(`Expression.predicate_freeForm`). A user variable may be defined by a parameter or by an assignment; the two differ
only where the value begins with a separator (`Transformation.definition_assignment`).
-/

namespace DeliveryPath

/-! ## The first token -/

theorem collapse_append_space (v : List Char) : ∀ u : List Char, collapse (u ++ ' ' :: v) = collapse (u ++ '_' :: v)
  | [] => rfl
  | c :: u => by
    have hhead : (u ++ ' ' :: v).head?.any isSeparator = (u ++ '_' :: v).head?.any isSeparator := by
      cases u <;> rfl
    rw [List.cons_append, List.cons_append, collapse, collapse, hhead, collapse_append_space v u]

theorem compact_append_space (u v : List Char) : compact (u ++ ' ' :: v) = compact (u ++ '_' :: v) := by
  rw [compact_eq, compact_eq, collapse_append_space]

theorem compact_underscore (cs : List Char) : compact ('_' :: cs) = '_' :: compact (cs.dropWhile isSeparator) := by
  rw [compact_eq, compact_eq, collapse_underscore, translate_underscore]

/-- Separators at the front of a text become one underscore. -/
theorem compact_of_isSeparator {cs : List Char} (h : cs.head?.any isSeparator = true) :
    compact cs = '_' :: compact (cs.dropWhile isSeparator) := by
  cases cs with
  | nil => cases h
  | cons c cs =>
    have hc : isSeparator c = true := h
    have hfront : compact (c :: cs) = compact ('_' :: cs) := by
      by_cases hspace : c = ' '
      · rw [hspace]
        exact compact_append_space [] cs
      · rw [eq_underscore_of_isSeparator hc hspace]
    rw [hfront, compact_underscore, List.dropWhile_cons_of_pos hc]

theorem dropWhile_of_not_isSeparator {cs : List Char} (h : cs.head?.any isSeparator = false) :
    cs.dropWhile isSeparator = cs := by
  cases cs with
  | nil => rfl
  | cons c cs => exact List.dropWhile_cons_of_neg (Bool.eq_false_iff.mp h)

namespace Token
variable {t : Token}

theorem compact_written (h : t.WellFormed) (rest : List Char) :
    compact (t.written.toList ++ '_' :: rest) = t.code.toList ++ '_' :: compact (rest.dropWhile isSeparator) := by
  rw [compact_eq, collapse_written_append h, collapse_underscore, translate_written_append h (by simp) (by simp),
    translate_underscore, compact_eq]

/-- A token may be written as its code. -/
theorem compact_code (h : t.WellFormed) (rest : List Char) :
    compact (t.code.toList ++ '_' :: rest) = t.code.toList ++ '_' :: compact (rest.dropWhile isSeparator) := by
  rw [← written_abbreviated, compact_written h.abbreviated, code_abbreviated, written_abbreviated]

theorem dropWhile_written_append (h : t.WellFormed) (rest : List Char) :
    (t.written.toList ++ rest).dropWhile isSeparator = t.written.toList ++ rest := by
  obtain ⟨c, cs, hwritten, hc⟩ := exists_cons_written h
  rw [hwritten]
  exact dropWhile_of_not_isSeparator hc

end Token

/-! ## Comparisons -/

namespace Expression

theorem operatorWord_symbol (o : Operator) : operatorWord o.symbol = o.code := by
  rw [operatorWord, Operator.ofSymbol?_symbol]
  rfl

theorem operatorWord_eq_self {operator : String} (h : ∀ o : Operator, operator ≠ o.symbol) :
    operatorWord operator = operator := by
  have hnone : Operator.ofSymbol? operator = none := by
    refine List.find?_eq_none.mpr fun o _ ho => ?_
    exact h o (of_decide_eq_true ho).symm
  rw [operatorWord, hnone]
  rfl

/-- An operator may be given by its symbol or by its word. -/
theorem compact_operatorWord (operator : String) (rest : List Char) :
    compact (((operatorWord operator).toList ++ '_' :: rest).dropWhile isSeparator) =
      compact ((operator.toList ++ '_' :: rest).dropWhile isSeparator) := by
  by_cases h : ∃ o : Operator, operator = o.symbol
  · obtain ⟨o, rfl⟩ := h
    have ho : (Token.operator o).WellFormed := trivial
    have hsymbol : (o.symbol.toList ++ '_' :: rest).dropWhile isSeparator = o.symbol.toList ++ '_' :: rest :=
      Token.dropWhile_written_append ho _
    have hcode : (o.code.toList ++ '_' :: rest).dropWhile isSeparator = o.code.toList ++ '_' :: rest :=
      Token.dropWhile_written_append ho.abbreviated _
    rw [operatorWord_symbol, hcode, hsymbol]
    exact (Token.compact_code ho rest).trans (Token.compact_written ho rest).symm
  · rw [operatorWord_eq_self fun o ho => h ⟨o, ho⟩]

/-- A comparison comes out alike whether it is built, from the code of a quantity and the word of an operator, or
written in free form, whatever the operator and the value are: the code of the quantity comes first, and the rest
becomes compact by itself. -/
theorem predicate_freeForm (q : Quantity) (operator value : String) :
    (predicate {} q operator value).serialize = (ofText (q.name ++ " " ++ operator ++ " " ++ value)).serialize ∧
      (predicate {} q operator value).serialize.toList =
        q.code.toList ++ '_' :: compact ((operator ++ "_" ++ value).toList.dropWhile isSeparator) := by
  have hq : (Token.quantity q).WellFormed := trivial
  have hrest : (operator ++ "_" ++ value).toList = operator.toList ++ '_' :: value.toList := by simp
  rw [hrest]
  have hbuilt := calc (predicate {} q operator value).serialize.toList
    _ = compact (q.code.toList ++ '_' :: ((operatorWord operator).toList ++ '_' :: value.toList)) := by
      rw [serialize, predicate, push, List.nil_append, String.intercalate_singleton, toList_normalize]
      simp
    _ = q.code.toList ++ '_' ::
        compact (((operatorWord operator).toList ++ '_' :: value.toList).dropWhile isSeparator) :=
      Token.compact_code hq _
    _ = q.code.toList ++ '_' :: compact ((operator.toList ++ '_' :: value.toList).dropWhile isSeparator) := by
      rw [compact_operatorWord]
  have hfree := calc (ofText (q.name ++ " " ++ operator ++ " " ++ value)).serialize.toList
    _ = compact ((q.name.toList ++ ' ' :: operator.toList) ++ ' ' :: value.toList) := by
      rw [serialize, ofText, String.intercalate_singleton, toList_normalize]
      simp
    _ = compact (q.name.toList ++ '_' :: (operator.toList ++ '_' :: value.toList)) := by
      rw [compact_append_space, List.append_assoc, List.cons_append, compact_append_space]
    _ = q.code.toList ++ '_' :: compact ((operator.toList ++ '_' :: value.toList).dropWhile isSeparator) :=
      Token.compact_written hq _
  exact ⟨String.toList_inj.mp (hbuilt.trans hfree.symm), hbuilt⟩

example : (predicate {} .initialWidth ">=" " _$limit").serialize = "iw_gte_$limit" ∧
    (ofText "initial_width >=  _$limit").serialize = "iw_gte_$limit" := by decide +kernel

end Expression

/-! ## Definitions of user variables -/

theorem isSeparator_of_isAlphanum {c : Char} (h : c.isAlphanum = true) : isSeparator c = false := by
  rw [Bool.eq_false_iff]
  intro hc
  simp only [isSeparator, Bool.or_eq_true, beq_iff_eq] at hc
  rcases hc with rfl | rfl <;> exact absurd h (by decide)

theorem exists_userVariable {name : String} (h : isVariableName name = true) :
    ∃ own, (Token.userVariable own).WellFormed ∧ (Token.userVariable own).code = name := by
  obtain ⟨c, rest, hname, hc, hrest⟩ := isVariableName_iff.mp h
  refine ⟨String.ofList (c :: rest), ⟨by simp, ?_⟩, ?_⟩
  · rw [String.toList_ofList, List.forall_mem_cons]
    refine ⟨isSeparator_of_isAlphanum ?_, fun d hd => isSeparator_of_isAlphanum (hrest d hd)⟩
    rw [Char.isAlphanum, hc, Bool.true_or]
  · rw [← String.toList_inj, hname]
    simp [Token.code]

theorem Expression.assignment_eq_ok {name : String} (h : isVariableName name = true) (value : String) :
    assignment name value = .ok ⟨[name, value]⟩ := by
  rw [assignment, checkVariableName, if_pos h]
  rfl

theorem Expression.toList_serialize_assignment {name : String} (h : isVariableName name = true) (value : String) :
    (serialize ⟨[name, value]⟩).toList = name.toList ++ '_' :: compact (value.toList.dropWhile isSeparator) := by
  obtain ⟨own, hown, rfl⟩ := exists_userVariable h
  rw [serialize, toList_normalize, toList_intercalate_cons _ (List.cons_ne_nil _ _), String.intercalate_singleton]
  exact Token.compact_code hown _

namespace Transformation

theorem setVariable_eq_ok {name : String} (h : isVariableName name = true) (t : Transformation) (value : String) :
    t.setVariable name value = .ok (t.add name (.scalar value)) := by
  rw [setVariable, checkVariableName, if_pos h]
  rfl

theorem definition_mem_setVariable_iff {t : Transformation} (ht : Reachable t) {name : String}
    (h : isVariableName name = true) {value own : String} {c : RenderContext} :
    .definition name own ∈ (t.add name (.scalar value)).current.components c ↔ own = normalize value := by
  have hd := (reachable_iff_built.mp ht).distinctKeys t.current t.current_mem_segments
  have hadded : (t.add name (.scalar value)).current.DistinctKeys := hd.put name (.scalar value)
  have hget : (t.add name (.scalar value)).current.get? name = some (.scalar value) := Segment.get?_put_self ..
  rw [Segment.definition_mem_components_iff hadded, hget]
  constructor
  · rintro ⟨-, v, hv, rfl⟩
    rw [← Option.some.inj hv]
    rfl
  · rintro rfl
    exact ⟨h, _, rfl, rfl⟩

theorem assignments_mem_setAssignments_iff {t : Transformation} {expressions : List Expression} {e : Expression}
    (he : e ∈ expressions) (hne : e.serialize ≠ "") {text : String} {c : RenderContext} :
    .assignments text ∈ (t.setAssignments expressions).current.components c ↔
      text = ",".intercalate (expressions.map Expression.serialize) := by
  have hget : (t.setAssignments expressions).current.get? Parameter.assignments.name =
      some (.assignments expressions) := Segment.get?_put_self ..
  rw [Segment.assignments_mem_components_iff, Segment.shows_iff hget rfl]
  exact intercalate_ne_empty hne (List.mem_map_of_mem he)

/-- A user variable may be defined by a parameter or by an assignment, given among others. Either is shown, and both
read alike unless the value begins with a separator: the separators are then one with the underscore that the
assignment has after the name, but not with that of the parameter. -/
theorem definition_assignment {name : String} (h : isVariableName name = true) (value : String) :
    ∃ e, Expression.assignment name value = .ok e ∧
      (value.toList.head?.any isSeparator = false → (Component.definition name (normalize value)).text = e.serialize) ∧
      (value.toList.head?.any isSeparator = true → e.serialize = name ++ normalize value ∧
        (Component.definition name (normalize value)).text = name ++ "_" ++ normalize value) ∧
      ∀ {t}, Reachable t →
        (∃ u, t.setVariable name value = .ok u ∧
          ∀ c own, .definition name own ∈ u.current.components c ↔ own = normalize value) ∧
        ∀ before after c text,
          .assignments text ∈ (t.setAssignments (before ++ e :: after)).current.components c ↔
            text = ",".intercalate ((before ++ e :: after).map Expression.serialize) := by
  have hserialize := Expression.toList_serialize_assignment h value
  refine ⟨_, Expression.assignment_eq_ok h value, ?_, ?_, fun {t} ht => ⟨⟨_, setVariable_eq_ok h t value, ?_⟩, ?_⟩⟩
  · intro hvalue
    rw [← String.toList_inj, hserialize, dropWhile_of_not_isSeparator hvalue, ← toList_normalize]
    simp [Component.text]
  · intro hvalue
    refine ⟨?_, rfl⟩
    rw [← String.toList_inj, hserialize, ← compact_of_isSeparator hvalue, ← toList_normalize, String.toList_append]
  · intro c own
    exact definition_mem_setVariable_iff ht h
  · intro before after c text
    have hne : (Expression.serialize ⟨[name, value]⟩) ≠ "" := by
      rw [Ne, ← String.toList_eq_nil_iff, hserialize]
      simp
    exact assignments_mem_setAssignments_iff (List.mem_append_right _ (List.mem_cons_self ..)) hne

theorem definition_assignment_size : isVariableName "$size" = true ∧
    (" _x".toList.head?.any isSeparator = true ∧ ∃ e, Expression.assignment "$size" " _x" = .ok e ∧
      e.serialize = "$size" ++ normalize " _x") ∧
    ∃ e, Expression.assignment "$size" "initial_width * 2" = .ok e ∧
      "initial_width * 2".toList.head?.any isSeparator = false ∧ e.serialize = "$size_iw_mul_2" ∧
      ∃ t u, Reachable t ∧ t.setVariable "$size" "initial_width * 2" = .ok u ∧
        ∀ c own, .definition "$size" own ∈ u.current.components c ↔ own = "iw_mul_2" := by
  have hname : isVariableName "$size" = true := by decide +kernel
  have hkept : "initial_width * 2".toList.head?.any isSeparator = false := by decide +kernel
  have hdropped : " _x".toList.head?.any isSeparator = true := by decide +kernel
  have hvalue : normalize "initial_width * 2" = "iw_mul_2" := by decide +kernel
  obtain ⟨e, he, halike, -, hshown⟩ := definition_assignment hname "initial_width * 2"
  obtain ⟨e', he', -, hcut, -⟩ := definition_assignment hname " _x"
  obtain ⟨⟨u, hu, hown⟩, -⟩ := hshown (Reachable.ofParameters [("width", .scalar "50")])
  refine ⟨hname, ⟨hdropped, e', he', (hcut hdropped).1⟩, e, he, hkept, ?_, _, u, .ofParameters _, hu, ?_⟩
  · rw [← halike hkept, Component.text, hvalue]
    decide +kernel
  · rw [← hvalue]
    exact hown

end Transformation

end DeliveryPath
