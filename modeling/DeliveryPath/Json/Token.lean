import DeliveryPath.Json.Number
import DeliveryPath.Text.Hexadecimal

/-!
# Tokens of JSON

The text of a document is a sequence of punctuation marks, words, strings and numbers, with blanks between them.
-/

namespace DeliveryPath

inductive JsonToken where
  | openArray | closeArray | openObject | closeObject | colon | comma
  | scalar (value : Json)

/-! ## Strings -/

/-- What one place of a string literal stands for: a character, or a unit of UTF-16. -/
inductive StringUnit where
  | char (c : Char)
  | utf16 (n : Nat)

def shortEscape? : Char → Option Char
  | '"' => some '"'
  | '\\' => some '\\'
  | '/' => some '/'
  | 'b' => some '\x08'
  | 'f' => some '\x0c'
  | 'n' => some '\n'
  | 'r' => some '\r'
  | 't' => some '\t'
  | _ => none

/-- The units of a string literal, up to and without the closing quote, and what follows the quote. -/
def stringUnits? : List Char → Option (List StringUnit × List Char)
  | [] => none
  | '"' :: rest => some ([], rest)
  | '\\' :: 'u' :: a :: b :: c :: d :: rest => do
    let a ← hexValue? a
    let b ← hexValue? b
    let c ← hexValue? c
    let d ← hexValue? d
    let (units, rest) ← stringUnits? rest
    return (.utf16 (4096 * a + 256 * b + 16 * c + d) :: units, rest)
  | '\\' :: c :: rest => do
    let c ← shortEscape? c
    let (units, rest) ← stringUnits? rest
    return (.char c :: units, rest)
  | c :: rest =>
    if c = '\\' ∨ c.toNat < 32 then none
    else (stringUnits? rest).map fun p => (.char c :: p.1, p.2)

theorem length_of_stringUnits? {cs rest : List Char} {units : List StringUnit}
    (h : stringUnits? cs = some (units, rest)) : rest.length < cs.length := by
  fun_induction stringUnits? cs generalizing units rest with
  | case1 => cases h
  | case2 tail =>
    simp only [Option.some.injEq, Prod.mk.injEq] at h
    simp [h.2]
  | case3 a b c d tail ih =>
    simp only [bind, Option.bind_eq_some_iff, pure, Option.some.injEq, Prod.mk.injEq, Prod.exists] at h
    obtain ⟨_, -, _, -, _, -, _, -, units', rest', h, -, rfl⟩ := h
    have := ih h
    simp only [List.length_cons]
    omega
  | case4 c tail _ ih =>
    simp only [bind, Option.bind_eq_some_iff, pure, Option.some.injEq, Prod.mk.injEq, Prod.exists] at h
    obtain ⟨_, -, units', rest', h, -, rfl⟩ := h
    have := ih h
    simp only [List.length_cons]
    omega
  | case5 => cases h
  | case6 =>
    rename_i ih
    obtain ⟨p, hp, h⟩ := Option.map_eq_some_iff.1 h
    simp only [Prod.mk.injEq] at h
    obtain ⟨-, rfl⟩ := h
    have := ih hp
    simp only [List.length_cons]
    omega

/-- The text of the units. A leading surrogate must be followed by a trailing one, and a trailing one follows
nothing else. -/
def decodeUnits? : List StringUnit → Option (List Char)
  | [] => some []
  | .char c :: rest => (decodeUnits? rest).map (c :: ·)
  | .utf16 n :: rest =>
    if n < 0xD800 ∨ 0xE000 ≤ n then (decodeUnits? rest).map (Char.ofNat n :: ·)
    else
      match rest with
      | .utf16 m :: rest =>
        if n < 0xDC00 ∧ 0xDC00 ≤ m ∧ m < 0xE000 then
          (decodeUnits? rest).map (Char.ofNat (0x10000 + 1024 * (n - 0xD800) + (m - 0xDC00)) :: ·)
        else none
      | _ => none

/-! ## Numbers -/

/-- The digits at the front of a text, of which there must be one, and what follows. -/
def someDigits? (cs : List Char) : Option (List Char × List Char) :=
  let digits := cs.takeWhile Char.isDigit
  if digits.isEmpty then none else some (digits, cs.dropWhile Char.isDigit)

theorem length_of_someDigits? {cs digits rest : List Char} (h : someDigits? cs = some (digits, rest)) :
    rest.length < cs.length := by
  simp only [someDigits?] at h
  split at h
  · cases h
  · next hne =>
    simp only [Option.some.injEq, Prod.mk.injEq] at h
    obtain ⟨rfl, rfl⟩ := h
    have hlen := congrArg List.length (List.takeWhile_append_dropWhile (p := Char.isDigit) (l := cs))
    have hpos := List.length_pos_iff.2 (fun hnil => hne (List.isEmpty_iff.2 hnil))
    rw [List.length_append] at hlen
    omega

/-- The whole part: one zero, or digits that do not begin with one. -/
def wholeDigits? : List Char → Option (List Char × List Char)
  | '0' :: rest => some (['0'], rest)
  | cs => someDigits? cs

/-- The fraction after the whole part, if one begins here. -/
def fractionDigits? : List Char → Option (Option (List Char) × List Char)
  | '.' :: rest => (someDigits? rest).map fun p => (some p.1, p.2)
  | cs => some (none, cs)

/-- The exponent at the end of a number, if one begins here. -/
def exponentDigits? : List Char → Option (Option Int × List Char)
  | [] => some (none, [])
  | c :: rest =>
    if c = 'e' ∨ c = 'E' then
      (someDigits? (splitSign rest).2).map fun p =>
        (some (if (splitSign rest).1 then -(digitsValue p.1 : Int) else digitsValue p.1), p.2)
    else some (none, c :: rest)

/-- A minus, if one stands at the front, and what follows. -/
def splitMinus : List Char → Bool × List Char
  | '-' :: rest => (true, rest)
  | rest => (false, rest)

/-- A number at the front of a text, and what follows. -/
def numberParts? (cs : List Char) : Option (NumberParts × List Char) := do
  let (whole, rest) ← wholeDigits? (splitMinus cs).2
  let (fraction, rest) ← fractionDigits? rest
  let (exponent, rest) ← exponentDigits? rest
  return (⟨(splitMinus cs).1, whole, fraction, exponent⟩, rest)

theorem length_splitMinus (cs : List Char) : (splitMinus cs).2.length ≤ cs.length := by
  unfold splitMinus; split <;> simp

theorem length_of_wholeDigits? {cs digits rest : List Char} (h : wholeDigits? cs = some (digits, rest)) :
    rest.length < cs.length := by
  unfold wholeDigits? at h
  split at h
  · simp only [Option.some.injEq, Prod.mk.injEq] at h
    simp [h.2]
  · exact length_of_someDigits? h

theorem length_of_fractionDigits? {cs rest : List Char} {digits : Option (List Char)}
    (h : fractionDigits? cs = some (digits, rest)) : rest.length ≤ cs.length := by
  unfold fractionDigits? at h
  split at h
  · obtain ⟨p, hp, h⟩ := Option.map_eq_some_iff.1 h
    simp only [Prod.mk.injEq] at h
    have : p.2.length < _ := length_of_someDigits? hp
    simp only [← h.2, List.length_cons]
    omega
  · simp only [Option.some.injEq, Prod.mk.injEq] at h
    simp [h.2]

theorem length_of_exponentDigits? {cs rest : List Char} {exponent : Option Int}
    (h : exponentDigits? cs = some (exponent, rest)) : rest.length ≤ cs.length := by
  unfold exponentDigits? at h
  split at h
  · simp only [Option.some.injEq, Prod.mk.injEq] at h
    simp [← h.2]
  · next c tail =>
    split at h
    · obtain ⟨p, hp, h⟩ := Option.map_eq_some_iff.1 h
      simp only [Prod.mk.injEq] at h
      have : p.2.length < _ := length_of_someDigits? hp
      have := length_splitSign tail
      simp only [← h.2, List.length_cons]
      omega
    · simp only [Option.some.injEq, Prod.mk.injEq] at h
      simp [← h.2]

theorem length_of_numberParts? {cs rest : List Char} {parts : NumberParts}
    (h : numberParts? cs = some (parts, rest)) : rest.length < cs.length := by
  simp only [numberParts?, bind, Option.bind_eq_some_iff, pure, Option.some.injEq, Prod.mk.injEq, Prod.exists] at h
  obtain ⟨_, _, hw, _, _, hf, _, _, he, -, rfl⟩ := h
  have := length_splitMinus cs
  have := length_of_wholeDigits? hw
  have := length_of_fractionDigits? hf
  have := length_of_exponentDigits? he
  omega

/-! ## The sequence of tokens -/

def isJsonBlank (c : Char) : Bool := c == ' ' || c == '\t' || c == '\n' || c == '\r'

/-- The token at the front of a text that begins with no blank, and what follows. -/
def JsonToken.read? (cs : List Char) : Option (JsonToken × List Char) :=
  match cs with
  | '[' :: rest => some (openArray, rest)
  | ']' :: rest => some (closeArray, rest)
  | '\x7b' :: rest => some (openObject, rest)
  | '\x7d' :: rest => some (closeObject, rest)
  | ':' :: rest => some (colon, rest)
  | ',' :: rest => some (comma, rest)
  | 'n' :: 'u' :: 'l' :: 'l' :: rest => some (scalar .null, rest)
  | 't' :: 'r' :: 'u' :: 'e' :: rest => some (scalar (.bool true), rest)
  | 'f' :: 'a' :: 'l' :: 's' :: 'e' :: rest => some (scalar (.bool false), rest)
  | '"' :: rest => do
    let (units, rest) ← stringUnits? rest
    let chars ← decodeUnits? units
    return (scalar (.string (String.ofList chars)), rest)
  | _ => do
    let (parts, rest) ← numberParts? cs
    let value ← parts.toJson?
    return (scalar value, rest)

theorem JsonToken.length_of_read? {cs rest : List Char} {token : JsonToken}
    (h : read? cs = some (token, rest)) : rest.length < cs.length := by
  unfold read? at h
  split at h
  case h_10 =>
    simp only [bind, Option.bind_eq_some_iff, pure, Option.some.injEq, Prod.mk.injEq, Prod.exists] at h
    obtain ⟨_, _, hu, _, -, -, rfl⟩ := h
    have := length_of_stringUnits? hu
    simp only [List.length_cons]
    omega
  case h_11 =>
    simp only [bind, Option.bind_eq_some_iff, pure, Option.some.injEq, Prod.mk.injEq, Prod.exists] at h
    obtain ⟨_, _, hn, _, -, -, rfl⟩ := h
    exact length_of_numberParts? hn
  all_goals
    simp only [Option.some.injEq, Prod.mk.injEq] at h
    simp only [h.2, List.length_cons]
    omega

theorem length_dropWhile_le {p : Char → Bool} (cs : List Char) : (cs.dropWhile p).length ≤ cs.length :=
  (List.dropWhile_suffix p).length_le

/-- The tokens of a text; nothing if it cannot be cut into tokens. -/
def JsonToken.readAll? (cs : List Char) : Option (List JsonToken) :=
  match h : cs.dropWhile isJsonBlank with
  | [] => some []
  | c :: rest =>
    match h' : JsonToken.read? (c :: rest) with
    | none => none
    | some (token, after) =>
      have := length_of_read? h'
      have := length_dropWhile_le (p := isJsonBlank) cs
      have : after.length < cs.length := by rw [h] at this; omega
      (readAll? after).map (token :: ·)
termination_by cs.length

end DeliveryPath
