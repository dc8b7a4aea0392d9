import Nonlocal.Decimal.Shortest

/-!
# Laying out a decimal

A layout says how the shortest digits of a number become text: for which
magnitudes they are written positionally, how an exponent is written, and what
stands for the values that have no digits. There are two: `Layout.plain` for
models and messages and `Layout.record` for box records.
-/

namespace Nonlocal.Decimal

/-- The decisions a number's text depends on. -/
structure Layout where
  /-- Which of two equally near digit strings is taken. -/
  tie : Tie
  /-- Exponents of the leading digit that are written positionally; all if absent. -/
  positional : Option (Int × Int)
  /-- What follows a whole number that is written positionally. -/
  wholeSuffix : String
  /-- The text of a value that is not a number. -/
  notANumber : String
  /-- The text of positive infinity. -/
  infinity : String
  /-- Whether infinity keeps its sign. -/
  signedInfinity : Bool

/-- Numbers in models and messages are always written out, without an exponent. -/
def Layout.plain : Layout where
  tie := .up
  positional := none
  wholeSuffix := ""
  notANumber := "NaN"
  infinity := "inf"
  signedInfinity := true

/-- Numbers in records are written out from `10 ^ -5` up to below `10 ^ 16`, show
that they are no integers, and are absent where they have no digits. -/
def Layout.record : Layout where
  tie := .toEven
  positional := some (-5, 15)
  wholeSuffix := ".0"
  notANumber := "null"
  infinity := "null"
  signedInfinity := false

/-- A text of zeros. -/
def zeros (count : Nat) : String := String.ofList (List.replicate count '0')

/-- The digits with the point at its place; a whole number ends in `wholeSuffix`. -/
def positionalText (wholeSuffix : String) (scaled : Scaled) : String :=
  let digits := Nat.toDigits 10 scaled.digits
  if 0 ≤ scaled.exponent then
    String.ofList digits ++ zeros scaled.exponent.toNat ++ wholeSuffix
  else
    let places := (-scaled.exponent).toNat
    if places < digits.length then
      String.ofList (digits.take (digits.length - places)) ++ "."
        ++ String.ofList (digits.drop (digits.length - places))
    else "0." ++ zeros (places - digits.length) ++ String.ofList digits

/-- One digit before the point and a signed exponent. -/
def exponentText (leading : Int) (digits : Nat) : String :=
  let mantissa := match Nat.toDigits 10 digits with
    | [] => ""
    | [digit] => digit.toString
    | digit :: rest => digit.toString ++ "." ++ String.ofList rest
  mantissa ++ (if leading < 0 then "e-" else "e+") ++ toString leading.natAbs

/-- The text of a decimal without its sign. -/
def Layout.magnitudeText (layout : Layout) (scaled : Scaled) : String :=
  let leading := scaled.exponent + Int.ofNat (Shortest.digitCount scaled.digits) - 1
  match layout.positional with
  | none => positionalText layout.wholeSuffix scaled
  | some (lowest, highest) =>
    if scaled.digits = 0 || (lowest ≤ leading && leading ≤ highest) then
      positionalText layout.wholeSuffix scaled
    else exponentText leading scaled.digits

/-- The text of a number. Zero keeps its sign. -/
def Layout.text (layout : Layout) (number : Float) : String :=
  match Binary64.ofFloat number with
  | .notANumber => layout.notANumber
  | .infinite negative =>
    (if negative && layout.signedInfinity then "-" else "") ++ layout.infinity
  | .finite negative significand exponent =>
    (if negative then "-" else "")
      ++ layout.magnitudeText (Shortest.ofBinary layout.tie significand exponent)

end Nonlocal.Decimal
