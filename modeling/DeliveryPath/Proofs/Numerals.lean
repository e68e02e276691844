import Mathlib.Algebra.Order.Field.Power
import Mathlib.Data.Rat.Cast.Order
import Mathlib.Tactic.Linarith
import Mathlib.Tactic.Positivity
import Mathlib.Tactic.Ring
import DeliveryPath.Proofs.References
import DeliveryPath.Transformation.Setters

/-!
# Numerals read back

Whole numbers, and numbers with two decimal places, are written so that they can be read as numbers again. A number
that is written is positive again when it is read, unless its places are all zero (`exists_readNumber?_twoPlaces`): what
is at least a hundredth is too large for a double to round it to zero.
-/

namespace DeliveryPath

/-! ## Digits -/

theorem exists_of_isDigit {c : Char} (h : c.isDigit = true) : ∃ d < 10, c = Char.ofNat (48 + d) := by
  simp only [Char.isDigit, Bool.and_eq_true, decide_eq_true_eq] at h
  have hlow : 48 ≤ c.toNat := UInt32.le_iff_toNat_le.mp h.1
  have hhigh : c.toNat ≤ 57 := UInt32.le_iff_toNat_le.mp h.2
  refine ⟨c.toNat - 48, by omega, ?_⟩
  rw [Nat.add_sub_cancel' hlow, Char.ofNat_toNat]

theorem digitsValue_repr (n : Nat) : digitsValue (Nat.repr n).toList = n := by
  rw [Nat.toList_repr]
  exact Nat.ofDigitChars_ten_toDigits

theorem digitsValue_concat (cs : List Char) (c : Char) :
    digitsValue (cs ++ [c]) = 10 * digitsValue cs + (c.toNat - 48) := by
  unfold digitsValue
  rw [List.foldl_append]
  rfl

theorem isDigit_of_mem_repr {n : Nat} {c : Char} (h : c ∈ (Nat.repr n).toList) : c.isDigit = true := by
  rw [Nat.toList_repr] at h
  exact Nat.isDigit_of_mem_toDigits (by decide) (by decide) h

theorem toList_repr_ne_nil (n : Nat) : (Nat.repr n).toList ≠ [] := by
  rw [Nat.toList_repr]
  exact Nat.toDigits_ne_nil

theorem decimalDigit_spec (n : Nat) : (decimalDigit n).isDigit = true ∧ (decimalDigit n).toNat - 48 = n % 10 := by
  have hdigits : ∀ d < 10, (Char.ofNat (48 + d)).isDigit = true ∧ (Char.ofNat (48 + d)).toNat - 48 = d := by decide
  exact hdigits (n % 10) (Nat.mod_lt n (by decide))

/-! ## Blanks -/

theorem trim_eq_self {cs : List Char} (h : ∀ c ∈ cs, isBlank c = false) : trim cs = cs := by
  have hkept : ∀ {ds : List Char}, (∀ c ∈ ds, isBlank c = false) → ds.dropWhile isBlank = ds := by
    intro ds hd
    cases ds with
    | nil => rfl
    | cons d ds => exact List.dropWhile_cons_of_neg (by simp [hd d (List.mem_cons_self ..)])
  rw [trim, trimStart, hkept h, trimEnd, hkept fun c hc => h c (List.mem_reverse.mp hc), List.reverse_reverse]

theorem isBlank_of_isDigit {c : Char} (h : c.isDigit = true) : isBlank c = false := by
  have hdigits : ∀ d < 10, isBlank (Char.ofNat (48 + d)) = false := by decide
  obtain ⟨d, hd, rfl⟩ := exists_of_isDigit h
  exact hdigits d hd

/-! ## Numerals -/

section
variable (f : BinaryFormat) (negative : Bool) {whole fraction : List Char}

theorem readDecimal?_whole (hw : ∀ c ∈ whole, c.isDigit = true) (hne : whole ≠ []) :
    readDecimal? f negative whole = some (f.ofDecimal negative (digitsValue whole) 0) := by
  obtain ⟨htake, hdrop⟩ := takeWhile_dropWhile_append (v := []) hw (by simp)
  rw [List.append_nil] at htake hdrop
  unfold readDecimal?
  rw [htake, hdrop]
  simp [hne, readExponent?]

theorem readDecimal?_point (hw : ∀ c ∈ whole, c.isDigit = true) (hf : ∀ c ∈ fraction, c.isDigit = true)
    (hne : whole ≠ []) : readDecimal? f negative (whole ++ '.' :: fraction) =
      some (f.ofDecimal negative (digitsValue (whole ++ fraction)) (-fraction.length)) := by
  obtain ⟨htake, hdrop⟩ := takeWhile_dropWhile_append (v := '.' :: fraction) hw (by simp)
  obtain ⟨htake', hdrop'⟩ := takeWhile_dropWhile_append (v := []) hf (by simp)
  rw [List.append_nil] at htake' hdrop'
  unfold readDecimal?
  rw [htake, hdrop]
  simp [hne, htake', hdrop', readExponent?]

/-- A sign before digits is read as the sign. -/
theorem read?_of_digit {c : Char} {rest : List Char} (hc : c.isDigit = true) :
    f.read? (signText negative ++ String.ofList (c :: rest)) = readDecimal? f negative (c :: rest) := by
  have hdigits : ∀ d < 10, Char.ofNat (48 + d) ≠ '-' ∧ Char.ofNat (48 + d) ≠ '+' ∧
      (Char.ofNat (48 + d)).toLower ≠ 'i' ∧ (Char.ofNat (48 + d)).toLower ≠ 'n' := by decide
  obtain ⟨d, hd, hcd⟩ := exists_of_isDigit hc
  obtain ⟨hminus, hplus, hi, hn⟩ := hdigits d hd
  rw [← hcd] at hminus hplus hi hn
  have hsign : splitSign (signText negative ++ String.ofList (c :: rest)).toList = (negative, c :: rest) := by
    rw [String.toList_append, String.toList_ofList]
    cases negative with
    | true => rfl
    | false =>
      show splitSign (c :: rest) = (false, c :: rest)
      unfold splitSign
      split
      · next heq => exact absurd (List.cons.inj heq).1 hminus
      · next heq => exact absurd (List.cons.inj heq).1 hplus
      · rfl
  unfold BinaryFormat.read?
  rw [hsign]
  have hinf : ¬((c :: rest).map Char.toLower = "inf".toList ∨ (c :: rest).map Char.toLower = "infinity".toList) := by
    rintro (h | h)
    · exact hi (List.cons.inj h).1
    · exact hi (List.cons.inj h).1
  have hnan : ¬(c :: rest).map Char.toLower = "nan".toList := fun h => hn (List.cons.inj h).1
  dsimp only
  rw [if_neg hinf, if_neg hnan]

end

/-! ## Rounding -/

theorem pow2_add (m n : Nat) : pow2 (m + n) = pow2 m * pow2 n := Nat.pow_add 2 m n

theorem pow2_pos (n : Nat) : 0 < pow2 n := Nat.two_pow_pos n

theorem pow2_mono {m n : Nat} (h : m ≤ n) : pow2 m ≤ pow2 n := Nat.pow_le_pow_right (by decide) h

/-- What is more than a half is not rounded to zero. -/
theorem roundHalfEven_pos_iff {num den : Nat} (hden : 0 < den) : 0 < roundHalfEven num den ↔ den < 2 * num := by
  unfold roundHalfEven
  by_cases hzero : num / den = 0
  · have hlt : num < den := Nat.lt_of_div_eq_zero hden hzero
    rw [hzero, Nat.mod_eq_of_lt hlt]
    split_ifs <;> omega
  · have hpos : 0 < num / den := Nat.pos_of_ne_zero hzero
    have hle : den ≤ num := Nat.le_of_not_lt fun h => hzero (Nat.div_eq_of_lt h)
    generalize num / den = quotient at hpos ⊢
    split_ifs <;> omega

theorem floorLog2_le {num den : Nat} (hnum : 0 < num) :
    den * pow2 (floorLog2 num den).toNat ≤ num * pow2 (-floorLog2 num den).toNat := by
  have hlow : pow2 num.log2 ≤ num := Nat.log2_self_le (Nat.ne_of_gt hnum)
  have hhigh : den < pow2 (den.log2 + 1) := Nat.lt_log2_self
  unfold floorLog2
  dsimp only
  split_ifs with hlt
  · -- the first guess is too large, and the one below it is not
    rcases Nat.lt_or_ge den.log2 num.log2 with h | h
    · have hup : ((num.log2 : Int) - den.log2 - 1).toNat = num.log2 - den.log2 - 1 := by omega
      have hdown : (-((num.log2 : Int) - den.log2 - 1)).toNat = 0 := by omega
      have hsum : den.log2 + 1 + (num.log2 - den.log2 - 1) = num.log2 := by omega
      rw [hup, hdown]
      calc den * pow2 (num.log2 - den.log2 - 1)
          ≤ pow2 (den.log2 + 1) * pow2 (num.log2 - den.log2 - 1) := Nat.mul_le_mul_right _ hhigh.le
        _ = pow2 num.log2 := by rw [← pow2_add, hsum]
        _ ≤ num := hlow
        _ = num * pow2 0 := (Nat.mul_one num).symm
    · have hup : ((num.log2 : Int) - den.log2 - 1).toNat = 0 := by omega
      have hdown : (-((num.log2 : Int) - den.log2 - 1)).toNat = den.log2 + 1 - num.log2 := by omega
      have hsum : num.log2 + (den.log2 + 1 - num.log2) = den.log2 + 1 := by omega
      rw [hup, hdown]
      calc den * pow2 0 = den := Nat.mul_one den
        _ ≤ pow2 (den.log2 + 1) := hhigh.le
        _ = pow2 num.log2 * pow2 (den.log2 + 1 - num.log2) := by rw [← pow2_add, hsum]
        _ ≤ num * pow2 (den.log2 + 1 - num.log2) := Nat.mul_le_mul_right _ hlow
  · exact Nat.le_of_not_lt hlt

/-- A power of two that a quotient reaches is reached by all smaller ones. -/
theorem mul_pow2_le_of_le {num den : Nat} {l e : Int} (hle : e ≤ l)
    (h : den * pow2 l.toNat ≤ num * pow2 (-l).toNat) : den * pow2 e.toNat ≤ num * pow2 (-e).toNat := by
  have hsum : (-l).toNat + e.toNat ≤ (-e).toNat + l.toNat := by omega
  refine Nat.le_of_mul_le_mul_right ?_ (pow2_pos l.toNat)
  calc den * pow2 e.toNat * pow2 l.toNat = den * pow2 l.toNat * pow2 e.toNat := Nat.mul_right_comm ..
    _ ≤ num * pow2 (-l).toNat * pow2 e.toNat := Nat.mul_le_mul_right _ h
    _ = num * pow2 ((-l).toNat + e.toNat) := by rw [pow2_add, Nat.mul_assoc]
    _ ≤ num * pow2 ((-e).toNat + l.toNat) := Nat.mul_le_mul_left _ (pow2_mono hsum)
    _ = num * pow2 (-e).toNat * pow2 l.toNat := by rw [pow2_add, Nat.mul_assoc]

/-- A quotient that is not below the smallest positive double is not rounded to zero. -/
theorem isPositive_round {num den : Nat} (hnum : 0 < num) (hden : 0 < den) (h : den ≤ num * pow2 1074) :
    (BinaryFormat.double.round false num den).isPositive = true := by
  unfold BinaryFormat.round
  rw [if_neg (Nat.ne_of_gt hnum)]
  dsimp only
  generalize he : max BinaryFormat.double.minExponent (floorLog2 num den + 1 - BinaryFormat.double.precision) = e
  have hreached : den * pow2 e.toNat ≤ num * pow2 (-e).toNat := by
    rcases max_choice BinaryFormat.double.minExponent (floorLog2 num den + 1 - BinaryFormat.double.precision) with hm | hm
    · rw [← he, hm]
      exact (Nat.mul_one den).trans_le h
    · have hle : e ≤ floorLog2 num den := by
        rw [← he, hm]
        simp only [BinaryFormat.double]
        omega
      exact mul_pow2_le_of_le hle (floorLog2_le hnum)
  have hden' : 0 < den * pow2 e.toNat := Nat.mul_pos hden (pow2_pos _)
  have hmantissa : 0 < roundHalfEven (num * pow2 (-e).toNat) (den * pow2 e.toNat) := by
    rw [roundHalfEven_pos_iff hden']
    omega
  have hfinite : ∀ {m : Nat}, 0 < m → ∀ e', (Binary64.finite false m e').isPositive = true := by
    intro m hm e'
    simp [Binary64.isPositive, Nat.ne_of_gt hm]
  split_ifs
  · rfl
  · exact hfinite (pow2_pos _) _
  · rfl
  · exact hfinite hmantissa _

theorem isPositive_round_true (f : BinaryFormat) (num den : Nat) : (f.round true num den).isPositive = false := by
  unfold BinaryFormat.round
  split_ifs with hnum
  · rfl
  · dsimp only
    split_ifs <;> rfl

theorem isPositive_ofDecimal_true (f : BinaryFormat) (significand : Nat) (exponent : Int) :
    (f.ofDecimal true significand exponent).isPositive = false := by
  unfold BinaryFormat.ofDecimal
  split_ifs
  · rfl
  · rfl
  · exact isPositive_round_true f _ _

theorem isPositive_ofDecimal_iff {significand : Nat} {exponent : Int} (hlow : -2 ≤ exponent) (hhigh : exponent ≤ 0) :
    (BinaryFormat.double.ofDecimal false significand exponent).isPositive = true ↔ 0 < significand := by
  unfold BinaryFormat.ofDecimal
  by_cases hzero : significand = 0
  · rw [if_pos (.inl hzero), hzero]
    decide
  · have hpos := Nat.pos_of_ne_zero hzero
    have hfits : ¬(significand = 0 ∨ exponent < -(400 + (Nat.log2 significand : Int))) := by omega
    have hnum : 0 < significand * pow10 exponent.toNat := Nat.mul_pos hpos (Nat.pow_pos (by decide))
    have hden : pow10 (-exponent).toNat ≤ pow10 2 := Nat.pow_le_pow_right (by decide) (by omega)
    have hsmall : pow10 2 ≤ pow2 1074 := calc
      pow10 2 ≤ pow2 7 := by decide
      _ ≤ pow2 1074 := pow2_mono (by decide)
    rw [if_neg hfits, if_neg (by omega), iff_true_right hpos]
    exact isPositive_round hnum (Nat.pow_pos (by decide))
      ((hden.trans hsmall).trans (Nat.le_mul_of_pos_left _ hnum))

/-! ## Order -/

namespace Binary64

/-- Strictly above a rational number. -/
def Above (q : ℚ) : Binary64 → Prop
  | .nan => False
  | .infinite negative => negative = false
  | .finite negative mantissa exponent => q < (if negative then -1 else 1) * mantissa * 2 ^ exponent

theorem not_above_of_negative {q : ℚ} (hq : 0 ≤ q) (mantissa : Nat) (exponent : Int) :
    ¬(finite true mantissa exponent).Above q := by
  have hpos : (0 : ℚ) ≤ mantissa * 2 ^ exponent := by positivity
  have hneg : (if true = true then -1 else 1) * (mantissa : ℚ) * 2 ^ exponent = -(mantissa * 2 ^ exponent) := by
    rw [if_pos rfl, neg_one_mul, neg_mul]
  rw [Above, hneg, not_lt]
  linarith

theorem above_zero_iff {x : Binary64} : x.Above 0 ↔ x.isPositive = true := by
  cases x with
  | nan => simp [Above, isPositive]
  | infinite negative => simp [Above, isPositive]
  | finite negative mantissa exponent =>
    cases negative with
    | true => simp [not_above_of_negative (le_refl 0), isPositive]
    | false =>
      have hpow : (0 : ℚ) < 2 ^ exponent := by positivity
      simp [Above, isPositive, hpow, Nat.pos_iff_ne_zero]

theorem two_zpow_eq (exponent : Int) : (2 : ℚ) ^ exponent = pow2 exponent.toNat / pow2 (-exponent).toNat := by
  have hsplit : exponent = exponent.toNat - (-exponent).toNat := by omega
  have hcast : ∀ n, (pow2 n : ℚ) = 2 ^ n := fun n => Nat.cast_pow 2 n
  rw [hcast, hcast, ← zpow_natCast, ← zpow_natCast, ← zpow_sub₀ two_ne_zero, ← hsplit]

/-- The places of a number are all zero if the number is not above half a hundredth. -/
theorem above_iff_hundredths_pos {mantissa : Nat} {exponent : Int} :
    (finite false mantissa exponent).Above (1 / 200) ↔ 0 < hundredths mantissa exponent := by
  have hden : (0 : ℚ) < pow2 (-exponent).toNat := Nat.cast_pos.mpr (pow2_pos _)
  have hvalue : (if false = true then -1 else 1) * (mantissa : ℚ) * 2 ^ exponent =
      (mantissa * pow2 exponent.toNat : Nat) / pow2 (-exponent).toNat := by
    rw [two_zpow_eq, Nat.cast_mul, if_neg Bool.false_ne_true, one_mul, mul_div_assoc]
  have hscaled : ((mantissa * pow2 exponent.toNat : Nat) : ℚ) * 200 =
      (2 * (100 * mantissa * pow2 exponent.toNat) : Nat) := by
    push_cast
    ring
  rw [Above, hvalue, hundredths, roundHalfEven_pos_iff (pow2_pos _), div_lt_div_iff₀ (by norm_num) hden, one_mul,
    hscaled, Nat.cast_lt]

end Binary64

/-! ## Written and read -/

theorem digitsValue_tenths (n : Nat) : digitsValue ((Nat.repr (n / 100)).toList ++ [decimalDigit (n / 10)]) = n / 10 := by
  rw [digitsValue_concat, digitsValue_repr, (decimalDigit_spec (n / 10)).2]
  omega

theorem digitsValue_hundredths (n : Nat) :
    digitsValue ((Nat.repr (n / 100)).toList ++ [decimalDigit (n / 10), decimalDigit n]) = n := by
  rw [List.append_cons, digitsValue_concat, digitsValue_tenths, (decimalDigit_spec n).2]
  omega

theorem read?_hundredthsText (f : BinaryFormat) (negative : Bool) (n : Nat) : ∃ significand exponent,
    f.read? (signText negative ++ hundredthsText n) = some (f.ofDecimal negative significand exponent) ∧
      (0 < significand ↔ 0 < n) ∧ -2 ≤ exponent ∧ exponent ≤ 0 := by
  obtain ⟨c, rest, hwhole⟩ := List.exists_cons_of_ne_nil (toList_repr_ne_nil (n / 100))
  have hdigits : ∀ d ∈ c :: rest, d.isDigit = true := by
    rw [← hwhole]
    exact fun d hd => isDigit_of_mem_repr hd
  have hten : (decimalDigit (n / 10)).isDigit = true := (decimalDigit_spec (n / 10)).1
  have hone : (decimalDigit n).isDigit = true := (decimalDigit_spec n).1
  have htext : ∀ fraction, Nat.repr (n / 100) ++ String.ofList ('.' :: fraction) =
      String.ofList (c :: (rest ++ '.' :: fraction)) := by
    intro fraction
    rw [← String.toList_inj]
    simp [hwhole]
  have hread : ∀ fraction, (∀ d ∈ fraction, d.isDigit = true) →
      f.read? (signText negative ++ String.ofList (c :: (rest ++ '.' :: fraction))) =
        some (f.ofDecimal negative (digitsValue (c :: rest ++ fraction)) (-fraction.length)) := by
    intro fraction hf
    rw [read?_of_digit f negative (hdigits c (List.mem_cons_self ..)), ← List.cons_append]
    exact readDecimal?_point f negative hdigits hf (List.cons_ne_nil c rest)
  unfold hundredthsText
  rw [htext]
  by_cases hzero : n % 10 = 0
  · rw [if_pos hzero, hread _ (List.forall_mem_singleton.mpr hten), ← hwhole, digitsValue_tenths]
    exact ⟨_, _, rfl, by omega, by simp, by simp⟩
  · have hboth : ∀ d ∈ [decimalDigit (n / 10), decimalDigit n], d.isDigit = true := by
      simp [hten, hone]
    rw [if_neg hzero, hread _ hboth, ← hwhole, digitsValue_hundredths]
    exact ⟨_, _, rfl, Iff.rfl, by simp, by simp⟩

/-- Signs, digits and points are not blank. -/
theorem readNumber?_of_numeral {text : String} (h : ∀ c ∈ text.toList, c.isDigit = true ∨ c = '-' ∨ c = '.') :
    readNumber? text = Binary64.read? text := by
  have hblank : ∀ c ∈ text.toList, isBlank c = false := by
    intro c hc
    rcases h c hc with hd | rfl | rfl
    · exact isBlank_of_isDigit hd
    · decide
    · decide
  rw [readNumber?, trim_eq_self hblank, String.ofList_toList]

theorem isDigit_of_mem_hundredthsText {n : Nat} {c : Char} (h : c ∈ (hundredthsText n).toList) :
    c.isDigit = true ∨ c = '.' := by
  rw [hundredthsText, String.toList_append, String.toList_ofList, List.mem_append, List.mem_cons, List.mem_cons] at h
  rcases h with h | rfl | rfl | h
  · exact .inl (isDigit_of_mem_repr h)
  · exact .inr rfl
  · exact .inl (decimalDigit_spec _).1
  · split_ifs at h
    · cases h
    · rw [List.mem_singleton.mp h]
      exact .inl (decimalDigit_spec n).1

theorem mem_signText {negative : Bool} {c : Char} (h : c ∈ (signText negative).toList) : c = '-' := by
  cases negative with
  | true => exact List.mem_singleton.mp h
  | false => cases h

theorem exists_readNumber?_twoPlaces (x : Binary64) : ∃ y, readNumber? x.twoPlaces = some y ∧
    (y.isPositive = true ↔ x.Above (1 / 200)) := by
  cases x with
  | nan => exact ⟨.nan, by decide, by simp [Binary64.Above, Binary64.isPositive]⟩
  | infinite negative =>
    refine ⟨.infinite negative, ?_, by simp [Binary64.Above, Binary64.isPositive]⟩
    cases negative <;> decide
  | finite negative mantissa exponent =>
    have hchars : ∀ c ∈ (signText negative ++ hundredthsText (hundredths mantissa exponent)).toList,
        c.isDigit = true ∨ c = '-' ∨ c = '.' := by
      intro c hc
      rw [String.toList_append, List.mem_append] at hc
      rcases hc with hc | hc
      · exact .inr (.inl (mem_signText hc))
      · exact (isDigit_of_mem_hundredthsText hc).imp_right .inr
    obtain ⟨significand, e, hread, hpos, hlow, hhigh⟩ :=
      read?_hundredthsText .double negative (hundredths mantissa exponent)
    refine ⟨_, (readNumber?_of_numeral hchars).trans hread, ?_⟩
    cases negative with
    | true =>
      rw [isPositive_ofDecimal_true, iff_false_left Bool.false_ne_true]
      exact Binary64.not_above_of_negative (by norm_num) mantissa exponent
    | false => rw [isPositive_ofDecimal_iff hlow hhigh, hpos, Binary64.above_iff_hundredths_pos]

/-! ## Whole numbers -/

/-- The double nearest to a whole number. -/
def binaryOfInt (n : Int) : Binary64 := BinaryFormat.double.round (decide (n < 0)) n.natAbs 1

theorem ofDecimal_whole (f : BinaryFormat) (negative : Bool) (n : Nat) :
    f.ofDecimal negative n 0 = f.round negative n 1 := by
  unfold BinaryFormat.ofDecimal
  by_cases hzero : n = 0
  · rw [if_pos (.inl hzero), hzero]
    rfl
  · have hfits : ¬(n = 0 ∨ (0 : Int) < -(400 + (Nat.log2 n : Int))) := by omega
    rw [if_neg hfits, if_neg (by decide)]
    exact congrArg (f.round negative · 1) (Nat.mul_one n)

theorem readNumber?_signed_repr (negative : Bool) (n : Nat) :
    readNumber? (signText negative ++ Nat.repr n) = some (BinaryFormat.double.round negative n 1) := by
  obtain ⟨c, rest, hn⟩ := List.exists_cons_of_ne_nil (toList_repr_ne_nil n)
  have hdigits : ∀ d ∈ c :: rest, d.isDigit = true := by
    rw [← hn]
    exact fun d hd => isDigit_of_mem_repr hd
  have hchars : ∀ d ∈ (signText negative ++ Nat.repr n).toList, d.isDigit = true ∨ d = '-' ∨ d = '.' := by
    intro d hd
    rw [String.toList_append, List.mem_append] at hd
    rcases hd with hd | hd
    · exact .inr (.inl (mem_signText hd))
    · exact .inl (isDigit_of_mem_repr hd)
  have htext : Nat.repr n = String.ofList (c :: rest) := by rw [← hn, String.ofList_toList]
  rw [readNumber?_of_numeral hchars, htext, Binary64.read?, read?_of_digit _ _ (hdigits c (List.mem_cons_self ..)),
    readDecimal?_whole _ _ hdigits (List.cons_ne_nil c rest), ← hn, digitsValue_repr, ofDecimal_whole]

theorem readNumber?_repr (n : Int) : readNumber? (Int.repr n) = some (binaryOfInt n) := by
  cases n with
  | ofNat m =>
    have h := readNumber?_signed_repr false m
    rwa [signText, if_neg Bool.false_ne_true, String.empty_append] at h
  | negSucc m =>
    rw [binaryOfInt, decide_eq_true (Int.negSucc_lt_zero m)]
    exact readNumber?_signed_repr true (m + 1)

theorem isPositive_binaryOfInt (n : Int) : (binaryOfInt n).isPositive = true ↔ 0 < n := by
  unfold binaryOfInt
  rcases lt_trichotomy n 0 with h | rfl | h
  · rw [decide_eq_true h, isPositive_round_true, iff_false_left Bool.false_ne_true]
    omega
  · decide
  · have hpos : 0 < n.natAbs := by omega
    rw [decide_eq_false (by omega), iff_true_right h]
    exact isPositive_round hpos Nat.one_pos (Nat.mul_pos hpos (pow2_pos _))

end DeliveryPath
