/-!
# Names of user variables

A name is a dollar sign, an ASCII letter, and any number of ASCII letters and digits.
-/

namespace DeliveryPath

def isVariableName (name : String) : Bool :=
  match name.toList with
  | '$' :: c :: rest => c.isAlpha && rest.all Char.isAlphanum
  | _ => false

theorem isVariableName_iff {name : String} : isVariableName name = true ↔
    ∃ c rest, name.toList = '$' :: c :: rest ∧ c.isAlpha = true ∧ ∀ d ∈ rest, d.isAlphanum = true := by
  unfold isVariableName
  split
  · next c rest h =>
    simp only [h, Bool.and_eq_true, List.all_eq_true, List.cons.injEq, true_and]
    exact ⟨fun hc => ⟨c, rest, ⟨rfl, rfl⟩, hc⟩, fun ⟨_, _, ⟨rfl, rfl⟩, hc⟩ => hc⟩
  · next h =>
    simp only [Bool.false_eq_true, false_iff]
    rintro ⟨c, rest, hc, -⟩
    exact h c rest hc

end DeliveryPath
