import Nonlocal.Decimal.Binary64

/-!
# The shortest decimal that reads back

The reals that round to a binary64 number form an interval around it: half of
the gap to each neighbour, ends included if the significand is even. A decimal
grid is the set of multiples of a power of ten. The digits of a number come
from the coarsest grid that meets its interval, and of two grid points in the
interval the nearer one is taken. If a grid point lies in the interval then one
of the number's two neighbours on that grid does, so only these are tried.

All comparisons are between natural numbers: numerators over one common
denominator.
-/

namespace Nonlocal.Decimal

/-- `digits · 10 ^ exponent`. -/
structure Scaled where
  digits : Nat
  exponent : Int
  deriving DecidableEq, Repr

/-- Which of two equally near neighbours is taken. -/
inductive Tie where
  | toEven
  | up
  deriving DecidableEq, Repr

namespace Shortest

/-- A positive quotient. -/
structure Ratio where
  numerator : Nat
  denominator : Nat

/-- `numerator · base ^ exponent` as a quotient. -/
def Ratio.scale (ratio : Ratio) (base : Nat) (exponent : Int) : Ratio :=
  if 0 ≤ exponent then ⟨ratio.numerator * Nat.pow base exponent.toNat, ratio.denominator⟩
  else ⟨ratio.numerator, ratio.denominator * Nat.pow base (-exponent).toNat⟩

/-- Number of decimal digits of a natural number. -/
def digitCount (n : Nat) : Nat := (Nat.toDigits 10 n).length

/-- An exponent `e` such that the value is about `10 ^ e`: less than `10 ^ e` or
equal to it, and not less than a tenth of it. -/
def magnitude (ratio : Ratio) : Int :=
  let whole := ratio.numerator / ratio.denominator
  if 0 < whole then Int.ofNat (digitCount whole)
  else 1 - Int.ofNat (digitCount (ratio.denominator / ratio.numerator))

/-- The interval of a number in quarters of its last binary place. -/
structure Interval where
  low : Nat
  value : Nat
  high : Nat
  closed : Bool

/-- The reals that round to `significand · 2 ^ exponent`, in units of
`2 ^ (exponent - 2)`. -/
def interval (significand : Nat) (exponent : Int) : Interval where
  low := 4 * significand - (if Binary64.narrowBelow significand exponent then 1 else 2)
  value := 4 * significand
  high := 4 * significand + 2
  closed := significand % 2 = 0

/-- Whether a point lies in the interval; both are over one denominator. -/
def Interval.holds (range : Interval) (unit point : Nat) : Bool :=
  if range.closed then range.low * unit ≤ point && point ≤ range.high * unit
  else range.low * unit < point && point < range.high * unit

/-- The interval's grid point for multiples of `10 ^ grid`, if there is one. -/
def onGrid (tie : Tie) (range : Interval) (exponent grid : Int) : Option Nat :=
  let unit := (Ratio.mk 1 1).scale 2 (exponent - 2) |>.scale 10 (-grid)
  let below := range.value * unit.numerator / unit.denominator
  let holds := fun point => range.holds unit.numerator (point * unit.denominator)
  match holds below, holds (below + 1) with
  | false, false => none
  | true, false => some below
  | false, true => some (below + 1)
  | true, true =>
    let twice := 2 * (range.value * unit.numerator)
    let middle := (2 * below + 1) * unit.denominator
    if twice < middle then some below
    else if middle < twice then some (below + 1)
    else match tie with
      | .up => some (below + 1)
      | .toEven => some (if below % 2 = 0 then below else below + 1)

/-- Tries ever finer grids. -/
def search (tie : Tie) (range : Interval) (exponent : Int) : (tries : Nat) → (grid : Int) → Scaled
  | 0, grid => ⟨0, grid⟩
  | tries + 1, grid =>
    match onGrid tie range exponent grid with
    | some digits => ⟨digits, grid⟩
    | none => search tie range exponent tries (grid - 1)

/-- Moves zeros at the end of the digits into the exponent. -/
def dropZeros : (tries : Nat) → Scaled → Scaled
  | 0, scaled => scaled
  | tries + 1, scaled =>
    if scaled.digits % 10 = 0 then dropZeros tries ⟨scaled.digits / 10, scaled.exponent + 1⟩
    else scaled

/-- No binary64 number needs more digits. -/
def digitLimit : Nat := 17

/-- The shortest decimal of `significand · 2 ^ exponent`; zero has the digit 0. -/
def ofBinary (tie : Tie) (significand : Nat) (exponent : Int) : Scaled :=
  if significand = 0 then ⟨0, 0⟩
  else
    let start := magnitude ((Ratio.mk significand 1).scale 2 exponent)
    dropZeros (digitLimit + 1)
      (search tie (interval significand exponent) exponent digitLimit (start - 1))

end Shortest

end Nonlocal.Decimal
