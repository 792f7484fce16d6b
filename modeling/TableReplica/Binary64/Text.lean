import TableReplica.Binary64.Basic

/-!
# How numbers are written

Both places that write numbers use the shortest digits that read back. They differ in two choices, held by a `NumberLayout`: what
follows a whole number, and which numbers are written without an exponent.

A decimal reads back as a given number when it lies in the interval of reals that round to it (the ends belong to it when the
significand is even). The decimal grids with one, two, … seventeen digits are tried in turn; on each, only the two neighbours of the
number need testing. The first grid with a hit wins, of two hits the nearer, and a tie goes up.
-/

namespace TableReplica

/-! ## The shortest decimal that reads back -/

/-- The decimal number `coefficient * 10 ^ exponent`. -/
structure Decimal where
  coefficient : Nat
  exponent : Int
deriving DecidableEq

namespace Decimal

/-- The digits of the coefficient. -/
def digits (d : Decimal) : List Char := Nat.toDigits 10 d.coefficient

/-- The power of ten of the leading digit. -/
def leading (d : Decimal) : Int := d.exponent + (d.digits.length : Int) - 1

/-- The same number with no zero at the end of its digits, as far as `fuel` zeros go. -/
def dropZeros : Nat → Decimal → Decimal
  | 0, d => d
  | fuel + 1, d =>
    if d.coefficient ≠ 0 ∧ d.coefficient % 10 = 0 then dropZeros fuel ⟨d.coefficient / 10, d.exponent + 1⟩ else d

end Decimal

namespace Binary64

/-- The power of ten that makes every grid point of `shortest` an integer multiple of `2 ^ -1076`. -/
def gridShift : Nat := 345

/-- The interval of reals that round to the magnitude of a finite number, around the magnitude itself, in units of
`2 ^ -1076 * 10 ^ -gridShift`. Below a power of two the numbers lie twice as dense. -/
structure RoundingInterval where
  low : Nat
  value : Nat
  high : Nat
  closed : Bool

def roundingInterval (x : Binary64) : RoundingInterval :=
  let scale := Nat.pow 10 gridShift
  let below := if x.fraction = 0 ∧ 1 < x.exponentField then x.unit else 2 * x.unit
  { low := (4 * x.magnitude - below) * scale
    value := 4 * x.magnitude * scale
    high := (4 * x.magnitude + 2 * x.unit) * scale
    closed := decide (x.significand % 2 = 0) }

def RoundingInterval.holds (i : RoundingInterval) (point : Nat) : Bool :=
  if i.closed then decide (i.low ≤ point ∧ point ≤ i.high) else decide (i.low < point ∧ point < i.high)

/-- The better of the two neighbours of the value among the multiples of `10 ^ (position - gridShift)`, if one reads back. -/
def RoundingInterval.onGrid? (i : RoundingInterval) (position : Nat) : Option Decimal :=
  let step := Nat.pow 10 position <<< 1076
  let lower := i.value / step
  let toLower := i.value - lower * step
  let toUpper := (lower + 1) * step - i.value
  let exponent := (position : Int) - gridShift
  match i.holds (lower * step), i.holds ((lower + 1) * step) with
  | true, true => some ⟨if toLower < toUpper then lower else lower + 1, exponent⟩
  | true, false => some ⟨lower, exponent⟩
  | false, true => some ⟨lower + 1, exponent⟩
  | false, false => none

/-- The shortest decimal that reads back as the magnitude of a finite number other than zero. -/
def shortest (x : Binary64) : Decimal :=
  let i := x.roundingInterval
  let length := (Nat.toDigits 10 (i.value >>> 1076)).length
  let d := ((List.range 17).findSome? (fun n => i.onGrid? (length - 1 - n))).getD ⟨0, 0⟩
  d.dropZeros 17

end Binary64

/-! ## Layouts -/

/-- The choices left once the digits of a number are known. -/
structure NumberLayout where
  /-- What follows a whole number. -/
  wholeSuffix : String
  /-- Whether a number whose leading digit has this power of ten is written without an exponent. -/
  positional : Int → Bool

namespace NumberLayout

/-- Limits in messages: whole numbers bare, never an exponent. -/
def plain : NumberLayout := ⟨"", fun _ => true⟩

/-- Numbers inside keys: a real is told from an integer by its point, and has an exponent from `1e16` on and below `1e-4`. -/
def key : NumberLayout := ⟨".0", fun leading => decide (-4 ≤ leading ∧ leading < 16)⟩

end NumberLayout

namespace Decimal

/-- Without an exponent: zeros fill the gap between the digits and the point. -/
def positionalText (wholeSuffix : String) (d : Decimal) : String :=
  let ds := d.digits
  if 0 ≤ d.exponent then String.ofList (ds ++ List.replicate d.exponent.toNat '0') ++ wholeSuffix
  else
    let places := (-d.exponent).toNat
    if places < ds.length then
      String.ofList (ds.take (ds.length - places)) ++ "." ++ String.ofList (ds.drop (ds.length - places))
    else "0." ++ String.ofList (List.replicate (places - ds.length) '0' ++ ds)

/-- With an exponent: one digit before the point, and no point when there is only one digit. -/
def exponentText (d : Decimal) : String :=
  let mantissa := match d.digits with
    | [] => ""
    | [c] => String.ofList [c]
    | c :: rest => String.ofList (c :: '.' :: rest)
  mantissa ++ "e" ++ toString d.leading

end Decimal

/-- The text of a number in a layout. -/
def Binary64.text (layout : NumberLayout) (x : Binary64) : String :=
  if x.isNaN then "NaN"
  else
    let sign := if x.negative then "-" else ""
    let body :=
      if !x.isFinite then "inf"
      else if x.isZero then "0" ++ layout.wholeSuffix
      else
        let d := x.shortest
        if layout.positional d.leading then d.positionalText layout.wholeSuffix else d.exponentText
    sign ++ body

end TableReplica
