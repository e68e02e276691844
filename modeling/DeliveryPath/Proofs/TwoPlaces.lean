import Mathlib.Tactic.FieldSimp
import DeliveryPath.Proofs.Numerals

/-!
# Two decimal places

A finite number is written as the multiple of a hundredth that is nearest to its exact value, an even multiple where
two are equally near (`Binary64.twoPlaces_nearest`). The error of a rounded quotient is half a unit at most
(`two_mul_roundHalfEven`), and whatever is that near to a number is nearest (`isNearest_of_le_half`).
-/

namespace DeliveryPath

/-! ## The nearest multiple -/

/-- Of the multiples of a unit, the one by `n` is nearest to `x`; if another one is equally near, `n` is even. -/
structure IsNearest (unit x : ℚ) (n : ℤ) : Prop where
  nearest : ∀ k : ℤ, |x - n * unit| ≤ |x - k * unit|
  even : ∀ k : ℤ, k ≠ n → |x - k * unit| = |x - n * unit| → Even n

theorem isNearest_of_le_half {unit x : ℚ} {n : ℤ} (hunit : 0 < unit) (hle : |x - n * unit| ≤ unit / 2)
    (heven : |x - n * unit| = unit / 2 → Even n) : IsNearest unit x n := by
  -- another multiple is at least a unit away from this one
  have hfar : ∀ k : ℤ, k ≠ n → unit ≤ |x - n * unit| + |x - k * unit| := by
    intro k hk
    have hgap : (1 : ℚ) ≤ |((k - n : ℤ) : ℚ)| := by
      rw [← Int.cast_abs]
      exact_mod_cast Int.one_le_abs (sub_ne_zero.mpr hk)
    have hdistance : |(x - n * unit) - (x - k * unit)| = |((k - n : ℤ) : ℚ)| * unit := by
      rw [← abs_of_pos hunit, ← abs_mul, abs_of_pos hunit]
      congr 1
      push_cast
      ring
    calc unit = 1 * unit := (one_mul unit).symm
      _ ≤ |((k - n : ℤ) : ℚ)| * unit := mul_le_mul_of_nonneg_right hgap hunit.le
      _ = |(x - n * unit) - (x - k * unit)| := hdistance.symm
      _ ≤ |x - n * unit| + |x - k * unit| := abs_sub _ _
  constructor
  · intro k
    by_cases hk : k = n
    · rw [hk]
    · have := hfar k hk
      linarith
  · intro k hk heq
    have := hfar k hk
    apply heven
    linarith

theorem IsNearest.neg {unit x : ℚ} {n : ℤ} (h : IsNearest unit x n) : IsNearest unit (-x) (-n) := by
  have hneg : ∀ k : ℤ, |-x - k * unit| = |x - (-k : ℤ) * unit| := by
    intro k
    rw [← abs_neg]
    congr 1
    push_cast
    ring
  constructor
  · intro k
    rw [hneg, hneg, neg_neg]
    exact h.nearest (-k)
  · intro k hk heq
    rw [hneg, hneg, neg_neg] at heq
    have hk' : -k ≠ n := by omega
    exact (h.even (-k) hk' heq).neg

/-! ## Rounded quotients -/

/-- Twice a rounded quotient is off by the divisor at most, and by that much only if the quotient is even. -/
theorem two_mul_roundHalfEven {num den : Nat} (hden : 0 < den) :
    |2 * (num : ℤ) - 2 * roundHalfEven num den * den| ≤ den ∧
      (|2 * (num : ℤ) - 2 * roundHalfEven num den * den| = den → Even (roundHalfEven num den)) := by
  have hlt : num % den < den := Nat.mod_lt num hden
  have hnum : num / den * den + num % den = num := Nat.div_add_mod' num den
  unfold roundHalfEven
  generalize num / den = quotient at hnum ⊢
  generalize num % den = rest at hlt hnum ⊢
  have hsame : 2 * (num : ℤ) - 2 * quotient * den = 2 * rest := by
    rw [← hnum]
    push_cast
    ring
  have hnext : 2 * (num : ℤ) - 2 * (quotient + 1 : ℕ) * den = 2 * rest - 2 * den := by
    rw [← hnum]
    push_cast
    ring
  split_ifs with hlow hhigh
  · rw [hsame, abs_of_nonneg (by omega)]
    omega
  · rw [hnext, abs_of_nonpos (by omega)]
    omega
  · -- halfway, the quotient is kept if it is even, and the next number is even if it is not
    rcases Nat.mod_two_eq_zero_or_one quotient with hparity | hparity
    · rw [hparity, Nat.add_zero, hsame, abs_of_nonneg (by omega)]
      exact ⟨by omega, fun _ => Nat.even_iff.mpr hparity⟩
    · rw [hparity, hnext, abs_of_nonpos (by omega)]
      exact ⟨by omega, fun _ => Nat.even_iff.mpr (by omega)⟩

theorem isNearest_roundHalfEven {unit : ℚ} (hunit : 0 < unit) {num den : Nat} (hden : 0 < den) :
    IsNearest unit (num / den * unit) (roundHalfEven num den) := by
  have hpos : (0 : ℚ) < den := Nat.cast_pos.mpr hden
  obtain ⟨hle, heven⟩ := @two_mul_roundHalfEven num den hden
  generalize roundHalfEven num den = n at hle heven ⊢
  have hdistance : |(num / den * unit : ℚ) - (n : ℤ) * unit| =
      (|2 * (num : ℤ) - 2 * n * den| : ℤ) / den * (unit / 2) := by
    have hscaled : (num / den * unit : ℚ) - (n : ℤ) * unit =
        (2 * (num : ℤ) - 2 * n * den : ℤ) / den * (unit / 2) := by
      push_cast
      field_simp
    rw [hscaled, abs_mul, abs_div, abs_of_pos (half_pos hunit), abs_of_pos hpos, Int.cast_abs]
  apply isNearest_of_le_half hunit
  · rw [hdistance]
    apply mul_le_of_le_one_left (half_pos hunit).le
    rw [div_le_one hpos]
    exact_mod_cast hle
  · intro htie
    rw [hdistance, mul_eq_right₀ (half_pos hunit).ne', div_eq_one_iff_eq hpos.ne'] at htie
    exact (Int.even_coe_nat n).mpr (heven (by exact_mod_cast htie))

/-! ## Numerals -/

/-- A numeral with a whole part that has no superfluous zero in front, and one place or two, of which the second is
not zero. -/
@[ext]
structure Decimal where
  negative : Bool
  whole : List Char
  places : List Char
  whole_digits : ∀ c ∈ whole, c.isDigit = true
  whole_ne_nil : whole ≠ []
  whole_head : whole.head? = some '0' → whole = ['0']
  places_digits : ∀ c ∈ places, c.isDigit = true
  places_count : (∃ c, places = [c]) ∨ ∃ c d, places = [c, d] ∧ d ≠ '0'

def signed (negative : Bool) (q : ℚ) : ℚ := if negative then -q else q

namespace Decimal

def text (d : Decimal) : String :=
  String.ofList ((if d.negative then ['-'] else []) ++ d.whole ++ '.' :: d.places)

/-- What the numeral denotes. -/
def value (d : Decimal) : ℚ := signed d.negative (digitsValue (d.whole ++ d.places) / 10 ^ d.places.length)

/-- There is one way only to read a text as a numeral. -/
theorem text_inj {d d' : Decimal} (h : d.text = d'.text) : d = d' := by
  have hsplit : ∀ d : Decimal, (d.whole ++ '.' :: d.places).takeWhile Char.isDigit = d.whole ∧
      (d.whole ++ '.' :: d.places).dropWhile Char.isDigit = '.' :: d.places :=
    fun d => takeWhile_dropWhile_append d.whole_digits (by simp)
  have hminus : ∀ (d : Decimal) (cs : List Char), d.whole ++ '.' :: d.places ≠ '-' :: cs := by
    intro d cs heq
    obtain ⟨c, rest, hwhole⟩ := List.exists_cons_of_ne_nil d.whole_ne_nil
    have hdigit : c.isDigit = true := d.whole_digits c (by rw [hwhole]; exact List.mem_cons_self ..)
    rw [hwhole, List.cons_append, List.cons.injEq] at heq
    rw [heq.1] at hdigit
    exact absurd hdigit (by decide)
  have hboth : d.negative = d'.negative ∧ d.whole ++ '.' :: d.places = d'.whole ++ '.' :: d'.places := by
    simp only [text, String.ofList_inj, List.append_assoc] at h
    cases hd : d.negative <;> cases hd' : d'.negative <;> simp only [hd, hd'] at h
    · exact ⟨rfl, h⟩
    · exact absurd h (hminus d _)
    · exact absurd h.symm (hminus d' _)
    · exact ⟨rfl, (List.cons.inj h).2⟩
  have hwhole : d.whole = d'.whole := by rw [← (hsplit d).1, hboth.2, (hsplit d').1]
  have hplaces : '.' :: d.places = '.' :: d'.places := by rw [← (hsplit d).2, hboth.2, (hsplit d').2]
  exact Decimal.ext hboth.1 hwhole (List.cons.inj hplaces).2

end Decimal

theorem head?_toDigits_ne {n : Nat} (h : 0 < n) : (Nat.toDigits 10 n).head? ≠ some '0' := by
  induction n using Nat.strong_induction_on with
  | _ n ih =>
    by_cases hlt : n < 10
    · have hdigits : ∀ d < 10, 0 < d → [Nat.digitChar d].head? ≠ some '0' := by decide
      rw [Nat.toDigits_of_lt_base hlt]
      exact hdigits n hlt h
    · rw [Nat.toDigits_of_base_le (by decide) (by omega), List.head?_append_of_ne_nil _ Nat.toDigits_ne_nil]
      exact ih (n / 10) (by omega) (by omega)

theorem repr_eq_zero_of_head? {n : Nat} (h : (Nat.repr n).toList.head? = some '0') : (Nat.repr n).toList = ['0'] := by
  rw [Nat.toList_repr] at h ⊢
  rcases Nat.eq_zero_or_pos n with rfl | hpos
  · rfl
  · exact absurd h (head?_toDigits_ne hpos)

theorem decimalDigit_ne_zero {n : Nat} (h : n % 10 ≠ 0) : decimalDigit n ≠ '0' := by
  intro hzero
  have hvalue := (decimalDigit_spec n).2
  rw [hzero] at hvalue
  exact h hvalue.symm

namespace Decimal

/-- A count of hundredths as a numeral. -/
def ofHundredths (negative : Bool) (n : Nat) : Decimal where
  negative := negative
  whole := (Nat.repr (n / 100)).toList
  places := decimalDigit (n / 10) :: if n % 10 = 0 then [] else [decimalDigit n]
  whole_digits := fun _ => isDigit_of_mem_repr
  whole_ne_nil := toList_repr_ne_nil _
  whole_head := repr_eq_zero_of_head?
  places_digits := by
    have hten := (decimalDigit_spec (n / 10)).1
    have hone := (decimalDigit_spec n).1
    by_cases hzero : n % 10 = 0
    · simp [hzero, hten]
    · simp [hzero, hten, hone]
  places_count := by
    by_cases hzero : n % 10 = 0
    · exact .inl ⟨_, by rw [if_pos hzero]⟩
    · exact .inr ⟨_, _, by rw [if_neg hzero], decimalDigit_ne_zero hzero⟩

theorem text_ofHundredths (negative : Bool) (n : Nat) :
    (ofHundredths negative n).text = signText negative ++ hundredthsText n := by
  rw [← String.toList_inj]
  cases negative <;> simp [text, ofHundredths, signText, hundredthsText]

theorem value_ofHundredths (negative : Bool) (n : Nat) :
    (ofHundredths negative n).value = signed negative (n * (1 / 100)) := by
  unfold value ofHundredths
  apply congrArg (signed negative)
  by_cases hzero : n % 10 = 0
  · have hten : (n : ℚ) = (n / 10 : ℕ) * 10 := by exact_mod_cast (show n = n / 10 * 10 by omega)
    simp only [if_pos hzero, digitsValue_tenths, hten, List.length_singleton]
    ring
  · simp only [if_neg hzero, digitsValue_hundredths, List.length_cons, List.length_nil]
    ring

end Decimal

/-! ## Numbers in writing -/

/-- What a finite number is written as can be read as one numeral only. The numeral has the sign of the number and
denotes the multiple of a hundredth nearest to its exact value, an even one if two are equally near. -/
theorem Binary64.twoPlaces_nearest (negative : Bool) (mantissa : Nat) (exponent : Int) :
    ∃ d : Decimal, (∀ d' : Decimal, d'.text = (finite negative mantissa exponent).twoPlaces ↔ d' = d) ∧
      d.negative = negative ∧ ∃ n : ℤ, d.value = n * (1 / 100) ∧
        IsNearest (1 / 100) (signed negative (mantissa * 2 ^ exponent)) n := by
  have hvalue : (mantissa * 2 ^ exponent : ℚ) =
      (100 * mantissa * pow2 exponent.toNat : ℕ) / (pow2 (-exponent).toNat : ℕ) * (1 / 100) := by
    rw [two_zpow_eq]
    push_cast
    ring
  have hnearest : IsNearest (1 / 100) (mantissa * 2 ^ exponent) (hundredths mantissa exponent) := by
    rw [hvalue]
    exact isNearest_roundHalfEven (by norm_num) (pow2_pos _)
  have htext : (Decimal.ofHundredths negative (hundredths mantissa exponent)).text =
      (finite negative mantissa exponent).twoPlaces := Decimal.text_ofHundredths negative _
  refine ⟨.ofHundredths negative (hundredths mantissa exponent), ?_, rfl, ?_⟩
  · intro d'
    rw [← htext]
    exact ⟨Decimal.text_inj, congrArg Decimal.text⟩
  · rw [Decimal.value_ofHundredths]
    cases negative with
    | false => exact ⟨hundredths mantissa exponent, by simp [signed], hnearest⟩
    | true => exact ⟨-hundredths mantissa exponent, by simp [signed], hnearest.neg⟩

-- A tie goes to the even count of hundredths.
example : (Binary64.finite true 1 (-3)).twoPlaces = "-0.12" := by decide

end DeliveryPath
