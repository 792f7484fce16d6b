import Mathlib.Tactic.FieldSimp
import Mathlib.Tactic.Linarith
import Mathlib.Tactic.NormNum
import Mathlib.Tactic.Positivity
import Mathlib.Tactic.Ring
import TableReplica.Proofs.KindForms

/-!
# The numbers that patterns stand for

`Binary64.value` reads a pattern as the format has it: a sign, a power of two and a fraction of fifty-two binary places. In units of
`2 ^ -1074` the value is the integer `Binary64.scaled` (`Binary64.value_eq`). Of finite patterns the order of the values is the order of the
patterns, up to the signs of zeros (`Binary64.isBelow_iff`), and every natural number of at most fifty-three significant binary digits
has a pattern of its own (`Binary64.value_ofNat`).
-/

namespace TableReplica.Binary64

/-- The number a finite pattern stands for. The digit before the binary point is one, except where the exponent field is zero. -/
def value (x : Binary64) : ℚ :=
  (if x.negative then -1 else 1) *
    if x.exponentField = 0 then (x.fraction : ℚ) / 2 ^ 52 * 2 ^ (-1022 : ℤ)
    else (1 + (x.fraction : ℚ) / 2 ^ 52) * 2 ^ ((x.exponentField : ℤ) - 1023)

/-- One number is less than another: zeros of both signs are equal, and what is not a number is less than nothing. -/
def isBelow (x y : Binary64) : Bool :=
  !x.isNaN && !y.isNaN && decide (x.positiveZero.orderKey < y.positiveZero.orderKey)

/-! ## Values in units -/

/-- The least positive number of the format. -/
def least : ℚ := 2 ^ (-1074 : ℤ)

theorem least_pos : 0 < least := zpow_pos (by norm_num) _

/-- The least unit is the weight of the last place of the numbers with the least exponent. -/
theorem least_eq : least = 2 ^ (-1022 : ℤ) / 2 ^ 52 := by
  rw [least, ← zpow_natCast (2 : ℚ) 52, ← zpow_sub₀ (by norm_num)]
  rfl

theorem unit_eq (x : Binary64) : x.unit = 2 ^ (x.exponentField - 1) := Nat.one_shiftLeft _

theorem shiftLeft_mul_zpow (n : ℕ) : ((1 <<< n : ℕ) : ℚ) * 2 ^ (-(n : ℤ)) = 1 := by
  rw [Nat.one_shiftLeft, Nat.cast_pow, Nat.cast_ofNat, zpow_neg, zpow_natCast]
  exact mul_inv_cancel₀ (pow_ne_zero n (by norm_num))

/-- The number one has `oneScaled` units. -/
theorem oneScaled_mul_least : (oneScaled : ℚ) * least = 1 := shiftLeft_mul_zpow 1074

/-- The magnitude of a number, by its exponent and fraction. -/
theorem magnitude_mul_least (x : Binary64) :
    x.magnitude * least =
      if x.exponentField = 0 then (x.fraction : ℚ) / 2 ^ 52 * 2 ^ (-1022 : ℤ)
      else (1 + (x.fraction : ℚ) / 2 ^ 52) * 2 ^ ((x.exponentField : ℤ) - 1023) := by
  rw [magnitude, unit_eq, significand]
  split
  · rename_i hzero
    rw [hzero, least_eq]
    simp only [Nat.zero_sub, pow_zero, mul_one]
    ring
  · rename_i hnormal
    have hpower : (2 : ℚ) ^ ((x.exponentField : ℤ) - 1023) = 2 ^ (x.exponentField - 1) * 2 ^ (-1022 : ℤ) := by
      rw [← zpow_natCast, ← zpow_add₀ (by norm_num)]
      congr 1
      omega
    have hweight : (exponentWeight : ℚ) = 2 ^ 52 := by
      rw [exponentWeight]
      norm_num
    rw [hpower, least_eq, Nat.cast_mul, Nat.cast_add, hweight, Nat.cast_pow, Nat.cast_ofNat]
    field_simp

/-- A value in units of `2 ^ -1074`. -/
theorem value_eq (x : Binary64) : x.value = x.scaled * least := by
  rw [value, ← magnitude_mul_least, scaled]
  split <;> push_cast <;> ring

/-- Numbers are ordered as their numbers of units. -/
theorem value_lt_iff (x y : Binary64) : x.value < y.value ↔ x.scaled < y.scaled := by
  rw [value_eq, value_eq, mul_lt_mul_iff_left₀ least_pos, Int.cast_lt]

/-! ## The order of values -/

theorem fraction_lt (x : Binary64) : x.fraction < 2 ^ 52 := Nat.mod_lt _ (by decide)

/-- Below the power of two that the exponent field stands for, the magnitude has no room to reach it. -/
theorem magnitude_lt (x : Binary64) : x.magnitude < 2 ^ (52 + x.exponentField) := by
  have hfraction := x.fraction_lt
  rw [magnitude, unit_eq, significand]
  split
  · rename_i hzero
    simpa [hzero] using hfraction
  · rename_i hnormal
    have hsplit : 52 + x.exponentField = 53 + (x.exponentField - 1) := by omega
    rw [hsplit, Nat.pow_add]
    refine Nat.mul_lt_mul_of_pos_right ?_ (Nat.two_pow_pos _)
    rw [exponentWeight]
    omega

/-- A number with an exponent has the leading digit that is not written. -/
theorem le_magnitude {x : Binary64} (h : x.exponentField ≠ 0) : 2 ^ (52 + (x.exponentField - 1)) ≤ x.magnitude := by
  rw [magnitude, unit_eq, significand, if_neg h, Nat.pow_add]
  refine Nat.mul_le_mul_right _ ?_
  rw [exponentWeight]
  omega

/-- Of the patterns without their signs, the greater one has the greater magnitude. -/
theorem magnitude_lt_magnitude {x y : Binary64} (h : x.word % signWeight < y.word % signWeight) : x.magnitude < y.magnitude := by
  have hfields : x.exponentField < y.exponentField ∨ x.exponentField = y.exponentField ∧ x.fraction < y.fraction := by
    unfold exponentField fraction exponentWeight
    unfold signWeight at h
    omega
  rcases hfields with hexponent | ⟨hexponent, hfraction⟩
  · calc x.magnitude < 2 ^ (52 + x.exponentField) := x.magnitude_lt
      _ ≤ 2 ^ (52 + (y.exponentField - 1)) := Nat.pow_le_pow_right (by decide) (by omega)
      _ ≤ y.magnitude := le_magnitude (by omega)
  · rw [magnitude, magnitude, unit_eq, unit_eq, hexponent]
    refine Nat.mul_lt_mul_of_pos_right ?_ (Nat.two_pow_pos _)
    unfold significand
    rw [hexponent]
    split <;> omega

/-- Magnitudes are ordered as the bits below the sign. -/
theorem magnitude_lt_iff (x y : Binary64) : x.magnitude < y.magnitude ↔ x.word % signWeight < y.word % signWeight := by
  refine ⟨fun h => ?_, magnitude_lt_magnitude⟩
  by_contra hnot
  rcases Nat.lt_or_eq_of_le (Nat.le_of_not_lt hnot) with hlt | heq
  · exact absurd (magnitude_lt_magnitude hlt) (by omega)
  · have hfields : x.exponentField = y.exponentField ∧ x.fraction = y.fraction := by
      unfold exponentField fraction exponentWeight
      unfold signWeight at heq
      omega
    have hsame : x.magnitude = y.magnitude := by
      rw [magnitude, magnitude, unit_eq, unit_eq, significand, significand, hfields.1, hfields.2]
    omega

/-- A magnitude is positive unless all the bits below the sign are zero. -/
theorem magnitude_pos_iff (x : Binary64) : 0 < x.magnitude ↔ x.word % signWeight ≠ 0 := by
  have hzero : zero.magnitude = 0 := by decide
  have hiff := magnitude_lt_iff zero x
  rw [hzero] at hiff
  exact hiff.trans Nat.pos_iff_ne_zero

/-- The place of a pattern in the order, if all zeros are made positive. -/
theorem orderKey_positiveZero (x : Binary64) :
    x.positiveZero.orderKey =
      if x.negative = true ∧ x.word % signWeight ≠ 0 then -((x.word % signWeight : ℕ) : ℤ) - 1 else (x.word % signWeight : ℕ) := by
  have hlt := x.bits.toNat_lt
  by_cases hzero : x.word % signWeight = 0
  · have hpositive : x.positiveZero = zero := positiveZero_of_isZero (decide_eq_true hzero)
    rw [hpositive, hzero]
    simp [show zero.orderKey = 0 by decide]
  · have hsame : x.positiveZero = x := positiveZero_of_not_isZero (fun h => hzero (of_decide_eq_true h))
    rw [hsame, orderKey]
    by_cases hnegative : x.negative = true
    · rw [if_pos hnegative, if_pos ⟨hnegative, hzero⟩]
      unfold negative signWeight at hnegative
      unfold word signWeight at *
      rw [decide_eq_true_eq] at hnegative
      omega
    · rw [if_neg hnegative, if_neg (fun h => hnegative h.1)]
      unfold negative signWeight at hnegative
      unfold word signWeight at *
      rw [decide_eq_true_eq] at hnegative
      omega

/-- A finite real is not NaN. -/
theorem isNaN_of_isFinite {x : Binary64} (h : x.isFinite = true) : x.isNaN = false := by
  rw [isNaN, decide_eq_false_iff_not]
  exact fun hnan => (isFinite_iff x).mp h hnan.1

/-- Finite numbers are compared by their values. -/
theorem isBelow_iff {x y : Binary64} (hx : x.isFinite = true) (hy : y.isFinite = true) : x.isBelow y = true ↔ x.value < y.value := by
  have hlt := magnitude_lt_iff x y
  have hgt := magnitude_lt_iff y x
  have hxpos := magnitude_pos_iff x
  have hypos := magnitude_pos_iff y
  rw [value_lt_iff, isBelow, isNaN_of_isFinite hx, isNaN_of_isFinite hy, orderKey_positiveZero, orderKey_positiveZero, scaled, scaled]
  simp only [Bool.not_false, Bool.true_and, decide_eq_true_eq]
  generalize x.word % signWeight = p at *
  generalize y.word % signWeight = q at *
  generalize x.magnitude = m at *
  generalize y.magnitude = n at *
  by_cases hp : p = 0 <;> by_cases hq : q = 0 <;> cases x.negative <;> cases y.negative <;> simp [hp, hq] <;> omega

/-! ## Numbers with patterns of their own -/

/-- Turning the sign of a pattern turns the sign of its value. -/
theorem value_negate (x : Binary64) : x.negate.value = -x.value := by
  have hlt := x.bits.toNat_lt
  have hfraction : x.negate.fraction = x.fraction := by
    unfold fraction
    rw [word_negate]
    unfold exponentWeight signWeight word
    omega
  have hnegative : x.negate.negative = !x.negative := by
    rw [negative, negative, ← decide_not]
    apply decide_eq_decide.mpr
    rw [word_negate]
    unfold signWeight word
    omega
  have hmagnitude : x.negate.magnitude = x.magnitude := by
    rw [magnitude, magnitude, unit, unit, significand, significand, exponentField_negate, hfraction]
  rw [value_eq, value_eq, scaled, scaled, hmagnitude, hnegative]
  cases x.negative <;> simp

theorem one_shiftLeft_add (a b : ℕ) : 1 <<< (a + b) = 2 ^ a * (1 <<< b) := by
  rw [Nat.one_shiftLeft, Nat.one_shiftLeft, Nat.pow_add]

/-- A number of no more than fifty-three digits has at most as many more when it is shifted as it is shifted by. -/
theorem log2_lt_of_eq {n m k : ℕ} (hn : n ≠ 0) (h : n = m * 2 ^ k) (hm : m < 2 ^ 53) : n.log2 < 53 + k := by
  rw [Nat.log2_lt hn, Nat.pow_add, h]
  exact Nat.mul_lt_mul_of_pos_right hm (Nat.two_pow_pos k)

/-- The digits of a number are those of its pattern, shifted to fifty-three places, when it has no more of them than that:
digits that are cut off are zeros, and nothing is rounded. -/
theorem exists_digits {n m k : ℕ} (hn : n ≠ 0) (h : n = m * 2 ^ k) (hm : m < 2 ^ 53) :
    ∃ digits, digits * 2 ^ (n.log2 + 1) = n * 2 ^ 53 ∧
      ofNat n = ⟨.ofNat (min ((1021 + (n.log2 + 1)) * exponentWeight + digits) (2047 * exponentWeight))⟩ := by
  refine ⟨if n.log2 + 1 ≤ 53 then n <<< (53 - (n.log2 + 1)) else roundShift n (n.log2 + 1 - 53), ?_, by rw [ofNat, if_neg hn]⟩
  split
  · rename_i hshort
    rw [Nat.shiftLeft_eq, Nat.mul_assoc, ← Nat.pow_add, Nat.sub_add_cancel hshort]
  · rename_i hlong
    have hlog := log2_lt_of_eq hn h hm
    have hshift : n.log2 + 1 - 53 ≤ k := by omega
    have hdvd : 2 ^ (n.log2 + 1 - 53) ∣ n := h ▸ Nat.dvd_mul_left_of_dvd (Nat.pow_dvd_pow 2 hshift) m
    have hround : roundShift n (n.log2 + 1 - 53) = n / 2 ^ (n.log2 + 1 - 53) := by
      unfold roundShift
      simp only [Nat.one_shiftLeft, Nat.mod_eq_zero_of_dvd hdvd]
      rw [if_pos (Nat.two_pow_pos _)]
    calc roundShift n (n.log2 + 1 - 53) * 2 ^ (n.log2 + 1)
        = n / 2 ^ (n.log2 + 1 - 53) * 2 ^ (n.log2 + 1 - 53) * 2 ^ 53 := by
          rw [hround, Nat.mul_assoc, ← Nat.pow_add, Nat.sub_add_cancel (by omega)]
      _ = n * 2 ^ 53 := by rw [Nat.div_mul_cancel hdvd]

/-- Digits moved to fifty-three places have the first place taken and no place before it. -/
theorem digits_bounds {n digits : ℕ} (hn : n ≠ 0) (h : digits * 2 ^ (n.log2 + 1) = n * 2 ^ 53) : 2 ^ 52 ≤ digits ∧ digits < 2 ^ 53 := by
  constructor
  · have hle : 2 ^ n.log2 ≤ n := Nat.log2_self_le hn
    by_contra hnot
    have hlt := Nat.mul_lt_mul_of_pos_right (Nat.lt_of_not_le hnot) (Nat.two_pow_pos (n.log2 + 1))
    rw [h, Nat.pow_succ 2 n.log2] at hlt
    omega
  · have hlt : n < 2 ^ (n.log2 + 1) := Nat.lt_log2_self
    by_contra hnot
    have hle := Nat.mul_le_mul_right (2 ^ (n.log2 + 1)) (Nat.le_of_not_lt hnot)
    rw [h] at hle
    omega

/-- A word put together from an exponent and fifty-three digits. The first digit raises the exponent field by one and is left out of
the fraction. -/
theorem scaled_of_word {x : Binary64} {e digits : ℕ} (h : x.word = e * exponentWeight + digits) (he : e < 2046) (hlow : 2 ^ 52 ≤ digits)
    (hhigh : digits < 2 ^ 53) : x.isFinite = true ∧ x.scaled = (digits * 2 ^ e : ℕ) := by
  have hexponent : x.exponentField = e + 1 := by
    rw [exponentField, h]
    unfold exponentWeight
    omega
  have hfraction : x.fraction = digits - 2 ^ 52 := by
    rw [fraction, h]
    unfold exponentWeight
    omega
  have hpositive : x.negative = false := by
    rw [negative, decide_eq_false_iff_not, h]
    unfold exponentWeight signWeight
    omega
  have hsignificand : x.significand = digits := by
    rw [significand, if_neg (by omega), hfraction, exponentWeight]
    omega
  refine ⟨(isFinite_iff x).mpr (by omega), ?_⟩
  rw [scaled, hpositive, if_neg Bool.false_ne_true, magnitude, hsignificand, unit_eq, hexponent, Nat.add_sub_cancel]

/-- A natural number of at most fifty-three significant binary digits has a pattern of its own. -/
theorem value_ofNat {n m k : ℕ} (h : n = m * 2 ^ k) (hm : m < 2 ^ 53) (hk : 53 + k ≤ 1024) :
    (ofNat n).isFinite = true ∧ (ofNat n).value = n := by
  by_cases hzero : n = 0
  · subst hzero
    refine ⟨by decide, ?_⟩
    rw [value_eq, show (ofNat 0).scaled = 0 by decide]
    simp
  · obtain ⟨digits, hdigits, hpattern⟩ := exists_digits hzero h hm
    have hlog := log2_lt_of_eq hzero h hm
    obtain ⟨hlow, hhigh⟩ := digits_bounds hzero hdigits
    have hword : (ofNat n).word = (1022 + n.log2) * exponentWeight + digits := by
      rw [hpattern, word, UInt64.toNat_ofNat']
      unfold exponentWeight
      omega
    obtain ⟨hfinite, hscaled⟩ := scaled_of_word hword (by omega) hlow hhigh
    have hunits : digits * 2 ^ (1022 + n.log2) = n * oneScaled := by
      calc digits * 2 ^ (1022 + n.log2)
          = digits * 2 ^ (n.log2 + 1) * (1 <<< 1021) := by
            rw [Nat.mul_assoc, ← one_shiftLeft_add, Nat.one_shiftLeft]
            congr 2
            omega
        _ = n * (2 ^ 53 * (1 <<< 1021)) := by rw [hdigits, Nat.mul_assoc]
        _ = n * oneScaled := by rw [← one_shiftLeft_add, oneScaled]
    refine ⟨hfinite, ?_⟩
    rw [value_eq, hscaled, hunits, Int.cast_natCast, Nat.cast_mul, mul_assoc, oneScaled_mul_least, mul_one]

end TableReplica.Binary64
