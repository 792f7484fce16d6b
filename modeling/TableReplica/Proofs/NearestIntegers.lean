import Mathlib.Tactic.LinearCombination
import TableReplica.Proofs.RealValues

/-!
# Reals taken for integers

A real that comes where an integer is expected is taken for the integer nearest to it, and of two equally near ones for the one farther
from zero (`IsNearest`). There is one such integer for every number, and the greater number has the greater one (`IsNearest.mono`). For a
finite number of the format it is what `Binary64.roundHalfAway` computes, and it is a number of the format itself
(`Binary64.value_rounded`), so that the range of integer columns can be told there, though the greatest integer of the range is no
number of the format (`Binary64.outsideIntegers_iff`).
-/

namespace TableReplica

/-- The integer is the nearest to the number. Where another one is as near, it is the one farther from zero. -/
def IsNearest (q : ℚ) (n : ℤ) : Prop := ∀ m : ℤ, m ≠ n → |q - n| < |q - m| ∨ |q - n| = |q - m| ∧ |m| < |n|

namespace IsNearest

variable {q q' : ℚ} {n n' : ℤ}

/-- No integer is nearer than the nearest one. -/
theorem le_abs_sub (h : IsNearest q n) (m : ℤ) : |q - n| ≤ |q - m| := by
  by_cases hm : m = n
  · rw [hm]
  · rcases h m hm with hlt | ⟨heq, -⟩
    · exact le_of_lt hlt
    · exact le_of_eq heq

/-- A number has one nearest integer, since a tie is decided by magnitude. -/
theorem unique (h : IsNearest q n) (h' : IsNearest q n') : n = n' := by
  by_contra hne
  have hle := h.le_abs_sub n'
  have hle' := h'.le_abs_sub n
  rcases h n' (fun heq => hne heq.symm) with hlt | ⟨-, hfar⟩
  · linarith
  · rcases h' n hne with hlt | ⟨-, hfar'⟩
    · linarith
    · omega

/-- What is as near to the lesser integer as to the greater lies below their middle. -/
theorem add_self_le (hle : |q - n'| ≤ |q - n|) (hlt : n' < n) : q + q ≤ n + n' := by
  have hcast : (n' : ℚ) < n := Int.cast_lt.mpr hlt
  rcases abs_cases (q - n') with ⟨heq, hsign⟩ | ⟨heq, hsign⟩ <;> rcases abs_cases (q - n) with ⟨heq', hsign'⟩ | ⟨heq', hsign'⟩ <;>
    linarith

/-- What is as near to the greater integer as to the lesser lies above their middle. -/
theorem le_add_self (hle : |q - n| ≤ |q - n'|) (hlt : n' < n) : n + n' ≤ q + q := by
  have hcast : (n' : ℚ) < n := Int.cast_lt.mpr hlt
  rcases abs_cases (q - n') with ⟨heq, hsign⟩ | ⟨heq, hsign⟩ <;> rcases abs_cases (q - n) with ⟨heq', hsign'⟩ | ⟨heq', hsign'⟩ <;>
    linarith

/-- Taking the nearest integer keeps the order: two numbers whose nearest integers stood the other way round would both lie at the middle
of these. -/
theorem mono (h : IsNearest q n) (h' : IsNearest q' n') (hle : q ≤ q') : n ≤ n' := by
  by_contra hnot
  have hlt : n' < n := Int.not_le.mp hnot
  have hbelow := add_self_le (h'.le_abs_sub n) hlt
  have habove := le_add_self (h.le_abs_sub n') hlt
  have hmiddle : q = q' := by linarith
  subst hmiddle
  exact hnot (le_of_eq (h.unique h'))

/-- The nearest integer of the negative is the negative of the nearest integer. -/
theorem neg (h : IsNearest q n) : IsNearest (-q) (-n) := by
  intro m hm
  have hflip : ∀ k : ℤ, |(-q) - k| = |q - (-k : ℤ)| := by
    intro k
    rw [← abs_neg]
    congr 1
    push_cast
    ring
  rw [hflip, hflip, neg_neg, abs_neg n, ← abs_neg m]
  exact h (-m) (fun heq => hm (by omega))

theorem intCast (n : ℤ) : IsNearest n n := by
  intro m hm
  left
  rw [sub_self, abs_zero, abs_pos, sub_ne_zero, ne_eq, Int.cast_inj]
  exact fun heq => hm heq.symm

/-- Of a number that is not negative, half of one is added and the integer part taken. -/
theorem of_floor {k : ℕ} (hq : 0 ≤ q) (hle : (k : ℚ) ≤ q + 1 / 2) (hlt : q + 1 / 2 < k + 1) : IsNearest q k := by
  intro m hm
  have hnear : |q - ((k : ℤ) : ℚ)| ≤ 1 / 2 := by
    rw [Int.cast_natCast, abs_le]
    constructor <;> linarith
  rcases lt_or_gt_of_ne hm with hless | hmore
  · have hcast : (m : ℚ) + 1 ≤ k := by exact_mod_cast hless
    have hdist : |q - m| = q - m := abs_of_nonneg (by linarith)
    rcases lt_or_eq_of_le (show 1 / 2 ≤ q - m by linarith) with hfar | htie
    · left
      linarith
    · have hnext : (k : ℚ) = q + 1 / 2 := by linarith
      have hk : q - ((k : ℤ) : ℚ) = -(1 / 2) := by
        rw [Int.cast_natCast]
        linarith
      refine Or.inr ⟨by rw [hk, hdist, ← htie, abs_neg, abs_of_pos (by norm_num)], ?_⟩
      have hm0 : (-1 : ℚ) < m := by linarith
      have hm0' : -1 < m := by exact_mod_cast hm0
      rw [abs_of_nonneg (by omega), abs_of_nonneg (by omega)]
      exact hless
  · have hcast : (k : ℚ) + 1 ≤ m := by exact_mod_cast hmore
    have hdist : |q - m| = -(q - m) := abs_of_nonpos (by linarith)
    left
    linarith

/-- A whole number of units, so many of which make one, has its nearest integer by a division of natural numbers. -/
theorem of_units {one : ℕ} {unit : ℚ} (n : ℕ) (hone : one * unit = 1) : IsNearest (n * unit) ((2 * n + one) / (2 * one) : ℕ) := by
  have hpos : 0 < one := Nat.pos_of_ne_zero (fun hzero => by simp [hzero] at hone)
  have hunit : 0 < unit := pos_of_mul_pos_right (hone ▸ one_pos) (Nat.cast_nonneg one)
  have hle : (2 * n + one) / (2 * one) * (2 * one) ≤ 2 * n + one := Nat.div_mul_le_self _ _
  have hlt : 2 * n + one < ((2 * n + one) / (2 * one) + 1) * (2 * one) :=
    Nat.lt_mul_of_div_lt (Nat.lt_succ_self _) (Nat.mul_pos (by decide) hpos)
  generalize (2 * n + one) / (2 * one) = k at hle hlt ⊢
  have hle' : (k : ℚ) * (2 * one) * unit ≤ (2 * n + one) * unit := mul_le_mul_of_nonneg_right (by exact_mod_cast hle) (le_of_lt hunit)
  have hlt' : (2 * n + one) * unit < ((k : ℚ) + 1) * (2 * one) * unit := mul_lt_mul_of_pos_right (by exact_mod_cast hlt) hunit
  have hunits : ∀ q : ℚ, q * (2 * one) * unit = 2 * q := by
    intro q
    linear_combination 2 * q * hone
  have hsum : (2 * (n : ℚ) + one) * unit = 2 * (n * unit) + 1 := by
    linear_combination hone
  rw [hunits, hsum] at hle' hlt'
  exact of_floor (mul_nonneg (Nat.cast_nonneg _) (le_of_lt hunit)) (by linarith) (by linarith)

end IsNearest

namespace Binary64

/-! ## Rounding -/

/-- The magnitude of the rounded number is that of the number with half of one added, in whole ones. -/
theorem natAbs_roundHalfAway (x : Binary64) : x.roundHalfAway.natAbs = (2 * x.magnitude + oneScaled) / (2 * oneScaled) := by
  rw [roundHalfAway]
  split
  · rw [Int.natAbs_neg, Int.natAbs_natCast]
  · exact Int.natAbs_natCast _

/-- Every power of two up to that of the least unit is at most one, counted in such units. -/
theorem pow_le_oneScaled {n : ℕ} (h : n ≤ 1074) : 2 ^ n ≤ oneScaled :=
  Nat.le_trans (Nat.pow_le_pow_right (by decide) h) (Nat.le_of_eq (Nat.one_shiftLeft 1074).symm)

theorem oneScaled_pos : 0 < oneScaled := pow_le_oneScaled (Nat.zero_le _)

/-- A number is rounded to its nearest integer. -/
theorem isNearest_roundHalfAway (x : Binary64) : IsNearest x.value x.roundHalfAway := by
  have hmagnitude := IsNearest.of_units x.magnitude oneScaled_mul_least
  rw [value_eq, scaled, roundHalfAway]
  split
  · rw [Int.cast_neg, neg_mul, Int.cast_natCast]
    exact hmagnitude.neg
  · exact hmagnitude

/-- The nearest integer as a number of the format. What is rounded to zero keeps its sign. -/
def rounded (x : Binary64) : Binary64 :=
  if x.negative then (ofNat x.roundHalfAway.natAbs).negate else ofNat x.roundHalfAway.natAbs

/-- The nearest integer has no more significant digits than the number it is nearest to. -/
theorem exists_significant {x : Binary64} (h : x.isFinite = true) :
    ∃ m k, x.roundHalfAway.natAbs = m * 2 ^ k ∧ m < 2 ^ 53 ∧ 53 + k ≤ 1024 := by
  have hpos := oneScaled_pos
  have hexponent : x.exponentField < 2047 := by
    have hne := (isFinite_iff x).mp h
    have hlt : x.exponentField < 2048 := Nat.mod_lt _ (by decide)
    omega
  rw [natAbs_roundHalfAway]
  by_cases hwhole : 1075 ≤ x.exponentField
  · have hunit : x.unit = 2 ^ (x.exponentField - 1075) * oneScaled := by
      rw [unit, oneScaled, ← one_shiftLeft_add]
      congr 1
      omega
    have hsignificand : x.significand < 2 ^ 53 := by
      have hfraction := x.fraction_lt
      rw [significand, exponentWeight]
      split <;> omega
    refine ⟨x.significand, x.exponentField - 1075, ?_, hsignificand, by omega⟩
    rw [magnitude, hunit, ← Nat.mul_assoc x.significand]
    generalize x.significand * 2 ^ (x.exponentField - 1075) = n
    have hdouble : n * (2 * oneScaled) = 2 * (n * oneScaled) := by ring
    apply Nat.div_eq_of_lt_le
    · rw [hdouble]
      omega
    · rw [Nat.add_mul, hdouble]
      omega
  · have hsmall : x.magnitude < 2 ^ 52 * oneScaled := by
      refine Nat.lt_of_lt_of_le x.magnitude_lt ?_
      rw [Nat.pow_add]
      exact Nat.mul_le_mul_left _ (pow_le_oneScaled (by omega))
    refine ⟨(2 * x.magnitude + oneScaled) / (2 * oneScaled), 0, by simp, ?_, by decide⟩
    rw [Nat.div_lt_iff_lt_mul (by omega)]
    omega

/-- The rounded number is a number of the format, with the nearest integer as its value. -/
theorem value_rounded {x : Binary64} (h : x.isFinite = true) : x.rounded.isFinite = true ∧ x.rounded.value = x.roundHalfAway := by
  obtain ⟨m, k, hdigits, hm, hk⟩ := exists_significant h
  obtain ⟨hfinite, hvalue⟩ := value_ofNat hdigits hm hk
  have hround : x.roundHalfAway = if x.negative then -(x.roundHalfAway.natAbs : ℤ) else x.roundHalfAway.natAbs := by
    rw [natAbs_roundHalfAway]
    rfl
  rw [rounded]
  generalize x.roundHalfAway.natAbs = n at *
  rw [hround]
  split
  · rw [isFinite_negate, value_negate, hvalue]
    exact ⟨hfinite, by simp⟩
  · exact ⟨hfinite, by simpa using hvalue⟩

/-! ## The range -/

/-- The range of integers as numbers of the format tell it. The least integer is one of them. The greatest is not: it is written as the
number above it, which must not be reached. -/
def outsideIntegers (x : Binary64) : Bool :=
  x.isBelow (ofInt Quantity.integerColumn.bounds.1) || !x.isBelow (ofInt Quantity.integerColumn.bounds.2)

/-- The least integer of a column is a number of the format. -/
theorem value_firstInteger :
    (ofInt Quantity.integerColumn.bounds.1).isFinite = true ∧ (ofInt Quantity.integerColumn.bounds.1).value = -2 ^ 63 := by
  obtain ⟨hfinite, hvalue⟩ := value_ofNat (show 2 ^ 63 = 1 * 2 ^ 63 by decide) (by decide) (by decide)
  have hpattern : ofInt Quantity.integerColumn.bounds.1 = (ofNat (2 ^ 63)).negate := rfl
  rw [hpattern, isFinite_negate, value_negate, hvalue]
  exact ⟨hfinite, by norm_num⟩

/-- The greatest integer is rounded up as it is written. -/
theorem value_lastInteger :
    (ofInt Quantity.integerColumn.bounds.2).isFinite = true ∧ (ofInt Quantity.integerColumn.bounds.2).value = 2 ^ 63 := by
  obtain ⟨hfinite, hvalue⟩ := value_ofNat (show 2 ^ 63 = 1 * 2 ^ 63 by decide) (by decide) (by decide)
  have hpattern : ofInt Quantity.integerColumn.bounds.2 = ofNat (2 ^ 63) := by decide +kernel
  rw [hpattern, hvalue]
  exact ⟨hfinite, by norm_num⟩

theorem holds_iff (n : ℤ) : Quantity.integerColumn.Holds n ↔ -2 ^ 63 ≤ n ∧ n ≤ 2 ^ 63 - 1 := Iff.rfl

/-- No rounding on the way moves a number across an end of the range. -/
theorem outsideIntegers_iff {x : Binary64} {n : ℤ} (hfinite : x.isFinite = true) (hvalue : x.value = n) :
    x.outsideIntegers = true ↔ ¬Quantity.integerColumn.Holds n := by
  have hfirst : x.isBelow (ofInt Quantity.integerColumn.bounds.1) = true ↔ n < -2 ^ 63 := by
    rw [isBelow_iff hfinite value_firstInteger.1, value_firstInteger.2, hvalue]
    exact_mod_cast Iff.rfl
  have hlast : x.isBelow (ofInt Quantity.integerColumn.bounds.2) = true ↔ n < 2 ^ 63 := by
    rw [isBelow_iff hfinite value_lastInteger.1, value_lastInteger.2, hvalue]
    exact_mod_cast Iff.rfl
  rw [outsideIntegers, Bool.or_eq_true, Bool.not_eq_true', ← Bool.not_eq_true, hfirst, hlast, holds_iff]
  omega

/-! ## The integer that is taken -/

/-- A real is refused as not finite exactly when it is not. -/
theorem nearestInteger_eq_nonFinite_iff {x : Binary64} :
    x.nearestInteger = .error (.nonFinite .value) ↔ x.isFinite = false := by
  rw [nearestInteger]
  cases x.isFinite with
  | false => simp
  | true =>
    simp only [Bool.not_true, Bool.false_eq_true, if_false]
    split <;> simp

/-- A real is refused as out of range exactly when it is finite and its nearest integer is none of a column. -/
theorem nearestInteger_eq_outOfRange_iff {x : Binary64} :
    x.nearestInteger = .error (.outOfRange .integerColumn x) ↔ x.isFinite = true ∧ ¬Quantity.integerColumn.Holds x.roundHalfAway := by
  rw [nearestInteger]
  cases x.isFinite with
  | false => simp
  | true =>
    simp only [Bool.not_true, Bool.false_eq_true, if_false]
    split <;> simp_all

/-- A finite real is taken for its nearest integer, if that is one of a column. -/
theorem nearestInteger_eq_ok_iff {x : Binary64} {n : Int64} :
    x.nearestInteger = .ok n ↔ x.isFinite = true ∧ x.roundHalfAway = n.toInt := by
  rw [nearestInteger]
  cases x.isFinite with
  | false => simp
  | true =>
    simp only [Bool.not_true, Bool.false_eq_true, if_false, true_and]
    split
    · rename_i hholds
      have hle := hholds.1
      have hlt : x.roundHalfAway < 2 ^ 63 := Int.lt_of_le_sub_one hholds.2
      rw [Except.ok.injEq, ← Int64.toInt_inj, Int64.toInt_ofInt_of_le hle hlt]
    · rename_i hnot
      have hle := n.le_toInt
      have hlt := n.toInt_lt
      rw [holds_iff] at hnot
      constructor
      · intro h
        cases h
      · intro h
        omega

/-- A pattern is no finite number when it is not a number or one of the two infinities. -/
theorem isFinite_eq_false_iff (x : Binary64) :
    x.isFinite = false ↔ x.isNaN = true ∨ x = ⟨0x7FF0000000000000⟩ ∨ x = ⟨0xFFF0000000000000⟩ := by
  obtain ⟨bits⟩ := x
  have hlt := bits.toNat_lt
  have hpositive : (0x7FF0000000000000 : UInt64).toNat = 0x7FF0000000000000 := rfl
  have hnegative : (0xFFF0000000000000 : UInt64).toNat = 0xFFF0000000000000 := rfl
  rw [isFinite, isNaN, decide_eq_false_iff_not, not_not, decide_eq_true_eq, Binary64.mk.injEq, Binary64.mk.injEq,
    ← UInt64.toNat_inj, ← UInt64.toNat_inj, hpositive, hnegative]
  unfold exponentField fraction word exponentWeight
  dsimp only
  omega

/-- A real is taken for the integer nearest to it, and of two equally near ones for the one farther from zero. It is refused when it is
not a number or infinite, and when that integer lies outside the range, and taken for that very integer otherwise. Rounding stays in the
format, and comparing its result with the ends of the range there, one of them rounded itself, tells exactly the same. So the order is
kept, and an integer within the range that is written as a real is taken for itself. -/
theorem taken_for_nearest :
    (∀ x : Binary64, x.nearestInteger = .error (.nonFinite .value) ↔
      x.isNaN = true ∨ x = ⟨0x7FF0000000000000⟩ ∨ x = ⟨0xFFF0000000000000⟩) ∧
    (∀ x : Binary64, x.isFinite = true → ∃! n, IsNearest x.value n) ∧
    (∀ x : Binary64, x.nearestInteger = .error (.outOfRange .integerColumn x) ↔
      x.isFinite = true ∧ ∃ n, IsNearest x.value n ∧ (n < -2 ^ 63 ∨ 2 ^ 63 - 1 < n)) ∧
    (∀ (x : Binary64) (n : Int64), x.nearestInteger = .ok n ↔ x.isFinite = true ∧ IsNearest x.value n.toInt) ∧
    (∀ x : Binary64, x.isFinite = true → (∀ n : ℤ, IsNearest x.value n ↔ x.rounded.value = n) ∧
      (x.rounded.outsideIntegers = true ↔ x.nearestInteger = .error (.outOfRange .integerColumn x))) ∧
    (∀ (x y : Binary64) (m n : Int64), x.nearestInteger = .ok m → y.nearestInteger = .ok n → x.value ≤ y.value → m ≤ n) ∧
    ∀ (x : Binary64) (n : Int64), x.isFinite = true → x.value = n.toInt → x.nearestInteger = .ok n := by
  have hnearest : ∀ (x : Binary64) (n : ℤ), IsNearest x.value n ↔ x.roundHalfAway = n := fun x n =>
    ⟨fun h => x.isNearest_roundHalfAway.unique h, fun h => h ▸ x.isNearest_roundHalfAway⟩
  refine ⟨?_, ?_, ?_, ?_, ?_, ?_, ?_⟩
  · intro x
    rw [nearestInteger_eq_nonFinite_iff, isFinite_eq_false_iff]
  · intro x _
    exact ⟨x.roundHalfAway, x.isNearest_roundHalfAway, fun n h => (x.isNearest_roundHalfAway.unique h).symm⟩
  · intro x
    simp only [nearestInteger_eq_outOfRange_iff, hnearest, exists_eq_left', holds_iff]
    exact and_congr_right' (by omega)
  · intro x n
    rw [nearestInteger_eq_ok_iff, hnearest]
  · intro x hfinite
    obtain ⟨hrounded, hvalue⟩ := value_rounded hfinite
    refine ⟨fun n => ?_, ?_⟩
    · rw [hnearest, hvalue, Int.cast_inj]
    · rw [outsideIntegers_iff hrounded hvalue, nearestInteger_eq_outOfRange_iff, hfinite]
      exact (and_iff_right rfl).symm
  · intro x y m n hm hn hle
    have hx := (nearestInteger_eq_ok_iff.mp hm).2
    have hy := (nearestInteger_eq_ok_iff.mp hn).2
    rw [Int64.le_iff_toInt_le, ← hx, ← hy]
    exact x.isNearest_roundHalfAway.mono y.isNearest_roundHalfAway hle
  · intro x n hfinite hvalue
    exact nearestInteger_eq_ok_iff.mpr ⟨hfinite, (hnearest x n.toInt).mp (hvalue ▸ IsNearest.intCast n.toInt)⟩

/-- The number just below a half, a half, and the number that the greatest integer is written as. -/
example : (⟨0x3FDFFFFFFFFFFFFF⟩ : Binary64).nearestInteger = .ok 0 ∧ (⟨0x3FE0000000000000⟩ : Binary64).nearestInteger = .ok 1 ∧
    (⟨0x43E0000000000000⟩ : Binary64).nearestInteger = .error (.outOfRange .integerColumn ⟨0x43E0000000000000⟩) :=
  ⟨rfl, rfl, rfl⟩

end Binary64

end TableReplica
