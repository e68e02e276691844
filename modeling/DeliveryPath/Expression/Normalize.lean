import DeliveryPath.Alias
import DeliveryPath.Text.Cut

/-!
# Compact expressions

An expression such as `initial_width / 2 >= $limit` is written compactly as `iw_div_2_gte_$limit`. Three steps
lead there: every run of blanks and underscores becomes one underscore (`collapse`), the references to user
variables are set apart (`pieces`), and in the text between them operators and quantities are replaced by their
codes (`abbreviate`).
-/

namespace DeliveryPath

/-! ## Separators -/

def isSeparator (c : Char) : Bool := c == ' ' || c == '_'

/-- Each run of separators as one underscore. -/
def collapse : List Char → List Char
  | [] => []
  | c :: rest =>
    if isSeparator c then
      if rest.head?.any isSeparator then collapse rest else '_' :: collapse rest
    else c :: collapse rest

/-! ## References to user variables -/

/-- A stretch of an expression: a reference to a user variable, or text without one. -/
inductive Piece where
  | text (chars : List Char)
  | reference (chars : List Char)

/-- A reference at the front of a text, and what follows it. It runs from a dollar sign over any underscores to
the next underscore after its name; a dollar sign with no name after it refers to nothing. -/
def referenceAt? : List Char → Option (List Char × List Char)
  | '$' :: rest =>
    let name := rest.dropWhile (· == '_')
    if name.isEmpty then none
    else some ('$' :: rest.takeWhile (· == '_') ++ name.takeWhile (· != '_'), name.dropWhile (· != '_'))
  | _ => none

theorem append_of_referenceAt? {cs reference rest : List Char} (h : referenceAt? cs = some (reference, rest)) :
    cs = reference ++ rest ∧ reference ≠ [] := by
  unfold referenceAt? at h
  split at h
  · next tail =>
    dsimp only at h
    split at h
    · cases h
    · simp only [Option.some.injEq, Prod.mk.injEq] at h
      obtain ⟨rfl, rfl⟩ := h
      simp [List.takeWhile_append_dropWhile]
  · cases h

theorem length_of_referenceAt? {cs reference rest : List Char} (h : referenceAt? cs = some (reference, rest)) :
    rest.length < cs.length := by
  obtain ⟨rfl, hne⟩ := append_of_referenceAt? h
  have := List.length_pos_iff.2 hne
  simp only [List.length_append]
  omega

/-- One more character at the front of a text that begins a list of pieces. -/
def Piece.consText (c : Char) : List Piece → List Piece
  | .text chars :: rest => .text (c :: chars) :: rest
  | rest => .text [c] :: rest

/-- The references of a text from left to right, and the stretches between them. -/
def pieces (cs : List Char) : List Piece :=
  match h : referenceAt? cs with
  | some (reference, rest) =>
    have := length_of_referenceAt? h
    .reference reference :: pieces rest
  | none =>
    match cs with
    | [] => []
    | c :: rest => Piece.consText c (pieces rest)
termination_by cs.length

theorem pieces_nil : pieces [] = [] := by rw [pieces]; rfl

theorem pieces_of_referenceAt? {cs reference rest : List Char} (h : referenceAt? cs = some (reference, rest)) :
    pieces cs = .reference reference :: pieces rest := by
  rw [pieces]; split <;> simp_all

theorem pieces_cons {c : Char} {rest : List Char} (h : referenceAt? (c :: rest) = none) :
    pieces (c :: rest) = Piece.consText c (pieces rest) := by
  rw [pieces]; split <;> simp_all

def Piece.chars : Piece → List Char
  | .text chars => chars
  | .reference chars => chars

/-- The references of a text, in order. -/
def references (cs : List Char) : List (List Char) :=
  (pieces cs).filterMap fun
    | .reference chars => some chars
    | .text _ => none

/-! ## Codes for operators and quantities -/

/-- An operator symbol at the front of a text with a separator right after it, and what follows. Without the
separator the symbol is part of a value, as in `10-5`. -/
def operatorAt? (cs : List Char) : Option (Operator × Char × List Char) :=
  Operator.all.findSome? fun o =>
    match dropFront? o.symbol.toList cs with
    | some (c :: rest) => if isSeparator c then some (o, c, rest) else none
    | _ => none

/-- The name of a quantity at the front of a text, and what follows. -/
def quantityAt? (cs : List Char) : Option (Quantity × List Char) :=
  Quantity.all.findSome? fun q => (dropFront? q.name.toList cs).map (q, ·)

theorem append_of_operatorAt? {cs rest : List Char} {o : Operator} {c : Char}
    (h : operatorAt? cs = some (o, c, rest)) : cs = o.symbol.toList ++ c :: rest ∧ isSeparator c = true := by
  obtain ⟨o', -, ho⟩ := List.exists_of_findSome?_eq_some h
  split at ho
  · next d tail hd =>
    split at ho
    · next hsep =>
      simp only [Option.some.injEq, Prod.mk.injEq] at ho
      obtain ⟨rfl, rfl, rfl⟩ := ho
      exact ⟨eq_append_of_dropFront? hd, hsep⟩
    · cases ho
  · cases ho

theorem append_of_quantityAt? {cs rest : List Char} {q : Quantity} (h : quantityAt? cs = some (q, rest)) :
    cs = q.name.toList ++ rest := by
  obtain ⟨q', -, hq⟩ := List.exists_of_findSome?_eq_some h
  obtain ⟨tail, ht, hq⟩ := Option.map_eq_some_iff.1 hq
  simp only [Prod.mk.injEq] at hq
  obtain ⟨rfl, rfl⟩ := hq
  exact eq_append_of_dropFront? ht

theorem length_of_operatorAt? {cs rest : List Char} {o : Operator} {c : Char}
    (h : operatorAt? cs = some (o, c, rest)) : rest.length < cs.length := by
  rw [(append_of_operatorAt? h).1]
  simp only [List.length_append, List.length_cons]
  omega

theorem length_of_quantityAt? {cs rest : List Char} {q : Quantity} (h : quantityAt? cs = some (q, rest)) :
    rest.length < cs.length := by
  rw [append_of_quantityAt? h]
  cases q <;> simp [Quantity.name] <;> omega

/-- Operators and quantities replaced by their codes, from left to right. `afterDollar` tells that a dollar sign
stands right before the text: then a quantity's name belongs to a variable and stays. -/
def abbreviate (afterDollar : Bool) (cs : List Char) : List Char :=
  match h : operatorAt? cs with
  | some (o, separator, rest) =>
    have := length_of_operatorAt? h
    o.code.toList ++ separator :: abbreviate false rest
  | none =>
    match h' : quantityAt? cs with
    | some (q, rest) =>
      have := length_of_quantityAt? h'
      (if afterDollar then q.name else q.code).toList ++ abbreviate false rest
    | none =>
      match cs with
      | [] => []
      | c :: rest => c :: abbreviate (c == '$') rest
termination_by cs.length

theorem abbreviate_nil (afterDollar : Bool) : abbreviate afterDollar [] = [] := by
  rw [abbreviate]; split
  · next h => simp [operatorAt?, Operator.all, Operator.symbol, dropFront?] at h
  · split
    · next h => simp [quantityAt?, Quantity.all, Quantity.name, dropFront?] at h
    · rfl

theorem abbreviate_of_operatorAt? {cs rest : List Char} {o : Operator} {c : Char} (afterDollar : Bool)
    (h : operatorAt? cs = some (o, c, rest)) :
    abbreviate afterDollar cs = o.code.toList ++ c :: abbreviate false rest := by
  rw [abbreviate]; split <;> simp_all

theorem abbreviate_of_quantityAt? {cs rest : List Char} {q : Quantity} (afterDollar : Bool)
    (h : operatorAt? cs = none) (h' : quantityAt? cs = some (q, rest)) :
    abbreviate afterDollar cs = (if afterDollar then q.name else q.code).toList ++ abbreviate false rest := by
  rw [abbreviate]; split
  · simp_all
  · split <;> simp_all

theorem abbreviate_cons {c : Char} {rest : List Char} (afterDollar : Bool)
    (h : operatorAt? (c :: rest) = none) (h' : quantityAt? (c :: rest) = none) :
    abbreviate afterDollar (c :: rest) = c :: abbreviate (c == '$') rest := by
  rw [abbreviate]; split
  · simp_all
  · split <;> simp_all

/-- References stay as they are. -/
def Piece.compact : Piece → List Char
  | .text chars => abbreviate false chars
  | .reference chars => chars

/-! ## The compact form -/

def compact (cs : List Char) : List Char := (pieces (collapse cs)).flatMap Piece.compact

/-- An expression in its compact form. -/
def normalize (expression : String) : String := String.ofList (compact expression.toList)

/-- The compact form of an expression that may be absent; an empty one counts as absent. -/
def normalize? (expression : Option String) : Option String := (given expression).map normalize

end DeliveryPath
