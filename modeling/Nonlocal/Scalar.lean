import Nonlocal.Decimal.Layout
import Nonlocal.Decimal.Numeral

/-!
# The numbers a box is computed in

Probabilities are binary64 numbers when a box is compiled. Every definition
that computes with them takes the number type as a parameter, so the same
definitions can be read over the exact rationals. `Scalar` holds what the
usual operators do not: conversions, the value of an empty row sum, and the
tests on tolerances. `ScalarText` is the text of a number in models and
messages.
-/

namespace Nonlocal

/-- Number types for probabilities, next to the usual operators. -/
class Scalar (α : Type) where
  /-- What a row total starts from: a zero that leaves every number unchanged,
  a negative zero included. -/
  emptySum : α
  /-- The number nearest to a count. -/
  ofNat : Nat → α
  /-- The number nearest to `± digits / 10 ^ places`. -/
  ofDecimal : (negative : Bool) → (digits places : Nat) → α
  /-- The magnitude of a number. -/
  abs : α → α
  /-- Whether a number is neither infinite nor without a value. -/
  isFinite : α → Bool

/-- The text of a number in models and messages. -/
class ScalarText (α : Type) where
  text : α → String

instance floatZero : Zero Float := ⟨0.0⟩

instance floatOne : One Float := ⟨1.0⟩

instance : Scalar Float where
  emptySum := -0.0
  ofNat := Float.ofNat
  ofDecimal negative digits places := Decimal.nearestFloat negative digits (-(Int.ofNat places))
  abs := Float.abs
  isFinite := Float.isFinite

instance : ScalarText Float where
  text := Decimal.Layout.plain.text

instance : Scalar Rat where
  emptySum := 0
  ofNat count := count
  ofDecimal negative digits places :=
    let magnitude : Rat := digits / Nat.pow 10 places
    if negative then -magnitude else magnitude
  abs value := if value < 0 then -value else value
  isFinite _ := true

/-- The sum of a row of numbers from left to right. -/
def rowTotal {α : Type} [Add α] [Scalar α] (numbers : List α) : α :=
  numbers.foldl (· + ·) Scalar.emptySum

end Nonlocal
