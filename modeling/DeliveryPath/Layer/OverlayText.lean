import DeliveryPath.Text.Percent
import DeliveryPath.Text.WordCharacter

/-!
# Overlay text

Text in a layer is percent-encoded, except that references `$(name)` stay as they are. A path is itself cut at
commas and slashes after one round of decoding, so those two are escaped twice.
-/

namespace DeliveryPath

/-- A reference `$(name)` at the front of a text, and what follows. The name is an ASCII letter and any number of
word characters. -/
def textReferenceAt? : List Char → Option (List Char × List Char)
  | '$' :: '(' :: c :: rest =>
    match rest.dropWhile isWordCharacter with
    | ')' :: after =>
      if c.isAlpha then some ('$' :: '(' :: c :: rest.takeWhile isWordCharacter ++ [')'], after) else none
    | _ => none
  | _ => none

theorem append_of_textReferenceAt? {cs reference rest : List Char}
    (h : textReferenceAt? cs = some (reference, rest)) : cs = reference ++ rest ∧ reference ≠ [] := by
  unfold textReferenceAt? at h
  split at h
  · next c tail =>
    split at h
    · next after hd =>
      split at h
      · simp only [Option.some.injEq, Prod.mk.injEq] at h
        obtain ⟨rfl, rfl⟩ := h
        have := List.takeWhile_append_dropWhile (p := isWordCharacter) (l := tail)
        rw [hd] at this
        simp [this]
      · cases h
    · cases h
  · cases h

theorem length_of_textReferenceAt? {cs reference rest : List Char}
    (h : textReferenceAt? cs = some (reference, rest)) : rest.length < cs.length := by
  obtain ⟨rfl, hne⟩ := append_of_textReferenceAt? h
  have := List.length_pos_iff.2 hne
  simp only [List.length_append]
  omega

/-- One character of overlay text. -/
def escapeOverlayChar (c : Char) : List Char :=
  if c = ',' then ['%', '2', '5', '2', 'C']
  else if c = '/' then ['%', '2', '5', '2', 'F']
  else Percent.encodeChar c

def encodeOverlayText (cs : List Char) : List Char :=
  match h : textReferenceAt? cs with
  | some (reference, rest) =>
    have := length_of_textReferenceAt? h
    reference ++ encodeOverlayText rest
  | none =>
    match cs with
    | [] => []
    | c :: rest => escapeOverlayChar c ++ encodeOverlayText rest
termination_by cs.length

theorem encodeOverlayText_nil : encodeOverlayText [] = [] := by rw [encodeOverlayText]; rfl

theorem encodeOverlayText_of_textReferenceAt? {cs reference rest : List Char}
    (h : textReferenceAt? cs = some (reference, rest)) :
    encodeOverlayText cs = reference ++ encodeOverlayText rest := by
  rw [encodeOverlayText]; split <;> simp_all

theorem encodeOverlayText_cons {c : Char} {rest : List Char} (h : textReferenceAt? (c :: rest) = none) :
    encodeOverlayText (c :: rest) = escapeOverlayChar c ++ encodeOverlayText rest := by
  rw [encodeOverlayText]; split <;> simp_all

end DeliveryPath
