import Mathlib.Tactic.SplitIfs

/-!
# The order of texts

Texts are ordered by their code points. UTF-8 keeps that order: of two characters, the one with the greater code
point has the greater byte where their bytes first differ. So texts are ordered by their bytes as well
(`lt_iff_utf8_lt`).
-/

namespace DeliveryPath

def utf8 (s : String) : List UInt8 := s.toUTF8.data.toList

theorem utf8_eq (s : String) : utf8 s = s.toList.flatMap String.utf8EncodeChar := by
  have h : s.toUTF8 = s.toList.utf8Encode := by
    rw [← String.toByteArray_ofList, String.ofList_toList]; rfl
  rw [utf8, h]
  exact List.toList_data_toByteArray

theorem utf8_inj {s t : String} (h : utf8 s = utf8 t) : s = t :=
  String.toByteArray_inj.mp (ByteArray.ext (Array.toList_inj.mp h))

theorem utf8EncodeChar_lt {c d : Char} (h : c < d) (u v : List UInt8) :
    String.utf8EncodeChar c ++ u < String.utf8EncodeChar d ++ v := by
  have hlt : c.val.toNat < d.val.toNat := h
  have hmax : d.val.toNat < 1114112 := by
    have hd := d.valid
    unfold UInt32.isValidChar Nat.isValidChar at hd
    omega
  simp only [String.utf8EncodeChar]
  generalize c.val.toNat = m at hlt
  generalize d.val.toNat = n at hlt hmax
  have h192 : ∀ k, (k % 32 + 192) % 256 = k % 32 + 192 := by omega
  have h224 : ∀ k, (k % 16 + 224) % 256 = k % 16 + 224 := by omega
  have h240 : ∀ k, (k % 8 + 240) % 256 = k % 8 + 240 := by omega
  have h128 : ∀ k, (k % 64 + 128) % 256 = k % 64 + 128 := by omega
  have hdiv : ∀ k, k / 4096 = k / 64 / 64 ∧ k / 262144 = k / 64 / 64 / 64 := by omega
  -- the first byte tells how many there are, and the code point is written with its highest bits first
  split_ifs <;>
    simp only [List.cons_append, List.nil_append, List.cons_lt_cons_iff, UInt8.lt_iff_toNat_lt,
      ← UInt8.toNat_inj, UInt8.toNat_ofNat', Nat.reducePow, h192, h224, h240, h128,
      (hdiv _).1, (hdiv _).2] <;>
    omega

theorem flatMap_utf8EncodeChar_lt : ∀ {cs ds : List Char}, cs < ds →
    cs.flatMap String.utf8EncodeChar < ds.flatMap String.utf8EncodeChar
  | _, [], h => absurd h (List.not_lt_nil _)
  | [], d :: ds, _ => by
    have hne : String.utf8EncodeChar d ≠ [] := by
      simp only [String.utf8EncodeChar]
      split_ifs <;> exact List.cons_ne_nil _ _
    obtain ⟨b, bs, hd⟩ := List.exists_cons_of_ne_nil hne
    rw [List.flatMap_cons, hd]
    exact List.nil_lt_cons b _
  | c :: cs, d :: ds, h => by
    rw [List.flatMap_cons, List.flatMap_cons]
    rcases List.cons_lt_cons_iff.mp h with hlt | ⟨rfl, hlt⟩
    · exact utf8EncodeChar_lt hlt _ _
    · exact List.append_left_lt (flatMap_utf8EncodeChar_lt hlt)

theorem lt_iff_utf8_lt {s t : String} : s < t ↔ utf8 s < utf8 t := by
  have hlt : ∀ {s t : String}, s < t → utf8 s < utf8 t := by
    intro s t h
    rw [utf8_eq, utf8_eq]
    exact flatMap_utf8EncodeChar_lt h
  refine ⟨hlt, ?_⟩
  intro h
  by_cases hst : s < t
  · exact hst
  · by_cases hts : t < s
    · exact absurd h (List.lt_asymm (hlt hts))
    · have heq := String.le_antisymm (String.not_lt.mp hts) (String.not_lt.mp hst)
      rw [heq] at h
      exact absurd h (List.lt_irrefl _)

end DeliveryPath
