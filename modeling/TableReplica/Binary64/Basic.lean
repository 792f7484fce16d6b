/-!
# Binary floating-point numbers of 64 bits

A real column holds a bit pattern; everything about it is decided by exact integer arithmetic on the pattern. A finite number is
the integer `scaled` in units of `2 ^ -1074`, which is how rounding and comparison are stated.
-/

namespace TableReplica

/-- A number of the binary64 format, as its bit pattern: sign, eleven exponent bits, fifty-two fraction bits. -/
structure Binary64 where
  bits : UInt64
deriving DecidableEq

namespace Binary64

instance : Inhabited Binary64 := ⟨⟨0⟩⟩

/-- The pattern as a natural number. -/
def word (x : Binary64) : Nat := x.bits.toNat

def zero : Binary64 := ⟨0⟩

/-- The weight of the sign bit. -/
def signWeight : Nat := 0x8000000000000000

/-- The weight of the last exponent bit, which the fraction stays below. -/
def exponentWeight : Nat := 0x10000000000000

def negative (x : Binary64) : Bool := decide (signWeight ≤ x.word)

def exponentField (x : Binary64) : Nat := x.word / exponentWeight % 2048

def fraction (x : Binary64) : Nat := x.word % exponentWeight

/-- All exponent bits set means an infinity or no number at all. -/
def isFinite (x : Binary64) : Bool := decide (x.exponentField ≠ 2047)

def isNaN (x : Binary64) : Bool := decide (x.exponentField = 2047 ∧ x.fraction ≠ 0)

/-- Zero of either sign. -/
def isZero (x : Binary64) : Bool := decide (x.word % signWeight = 0)

/-- Equality of the numbers meant: zeros of both signs are equal, and what is not a number equals nothing. -/
def numEq (x y : Binary64) : Bool :=
  !x.isNaN && !y.isNaN && (decide (x.bits = y.bits) || (x.isZero && y.isZero))

/-- The place of a pattern in the total order: negative patterns below positive ones, each side by magnitude, so a negative zero
is below zero and patterns that are no numbers stand at both ends. -/
def orderKey (x : Binary64) : Int := if x.negative then -((x.word - signWeight : Nat) : Int) - 1 else x.word

/-- The total order of the patterns. -/
def order (x y : Binary64) : Ordering := compare x.orderKey y.orderKey

/-- Bit patterns are compared by keys that tell all of them apart. -/
theorem orderKey_inj {x y : Binary64} : x.orderKey = y.orderKey ↔ x = y := by
  refine ⟨fun h => ?_, fun h => h ▸ rfl⟩
  have hx := x.bits.toNat_lt
  have hy := y.bits.toNat_lt
  have hw : x.word = y.word := by
    unfold orderKey negative signWeight at h
    simp only [decide_eq_true_eq] at h
    split at h <;> split at h <;> omega
  cases x
  cases y
  exact congrArg Binary64.mk (UInt64.toNat_inj.mp hw)

/-- The order tells any two patterns apart. -/
theorem order_eq_iff (x y : Binary64) : x.order y = .eq ↔ x = y := by
  rw [order, Std.LawfulEqOrd.compare_eq_iff_eq, orderKey_inj]

/-- The digits of the number in binary, with the leading one that normal numbers leave out. -/
def significand (x : Binary64) : Nat := if x.exponentField = 0 then x.fraction else exponentWeight + x.fraction

/-- The weight of the last digit of the significand, in units of `2 ^ -1074`. -/
def unit (x : Binary64) : Nat := 1 <<< (x.exponentField - 1)

/-- The magnitude of a finite number in units of `2 ^ -1074`. -/
def magnitude (x : Binary64) : Nat := x.significand * x.unit

/-- A finite number in units of `2 ^ -1074`. -/
def scaled (x : Binary64) : Int := if x.negative then -(x.magnitude : Int) else x.magnitude

/-- The number one in units of `2 ^ -1074`. -/
def oneScaled : Nat := 1 <<< 1074

/-- The nearest integer to a finite number; of two equally near ones, the one farther from zero. -/
def roundHalfAway (x : Binary64) : Int :=
  let n : Nat := (2 * x.magnitude + oneScaled) / (2 * oneScaled)
  if x.negative then -(n : Int) else n

def negate (x : Binary64) : Binary64 := ⟨x.bits + .ofNat signWeight⟩

/-- `n / 2 ^ shift` to the nearest natural number, a tie to the even one. -/
def roundShift (n shift : Nat) : Nat :=
  let step := 1 <<< shift
  let q := n / step
  let r := n % step
  if 2 * r < step then q else if step < 2 * r then q + 1 else q + q % 2

/-- The nearest number to a natural number, a tie to the even significand; infinity from the overflow threshold on. -/
def ofNat (n : Nat) : Binary64 :=
  if n = 0 then zero
  else
    let length := n.log2 + 1
    let digits := if length ≤ 53 then n <<< (53 - length) else roundShift n (length - 53)
    ⟨UInt64.ofNat (min ((1021 + length) * exponentWeight + digits) (2047 * exponentWeight))⟩

/-- The nearest number to an integer, a tie to the even significand. -/
def ofInt (n : Int) : Binary64 := if n < 0 then (ofNat n.natAbs).negate else ofNat n.natAbs

end Binary64

end TableReplica
