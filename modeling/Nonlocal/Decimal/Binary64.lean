/-!
# The exact value of a binary64 number

A finite number is `± significand · 2 ^ exponent`. The bits fix both factors:
one fraction field of 52 bits, one exponent field of 11 bits that is biased by
1075, and a sign. Exponent field 0 has no implicit leading bit; the last
exponent field holds infinity and the numbers that are not a number.
-/

namespace Nonlocal.Decimal

/-- What the bits of a binary64 number say. -/
inductive Binary64 where
  | notANumber
  | infinite (negative : Bool)
  | finite (negative : Bool) (significand : Nat) (exponent : Int)
  deriving DecidableEq, Repr

namespace Binary64

/-- The implicit leading bit, which stands above the 52 bits of the fraction field. -/
def leadingBit : Nat := Nat.pow 2 52

/-- Splits a bit pattern into its three fields. -/
def ofBits (bits : Nat) : Binary64 :=
  let negative := bits.testBit 63
  let field := bits / leadingBit % 2048
  let fraction := bits % leadingBit
  if field = 2047 then
    if fraction = 0 then .infinite negative else .notANumber
  else if field = 0 then .finite negative fraction (-1074)
  else .finite negative (leadingBit + fraction) (Int.ofNat field - 1075)

/-- Splits a number into its fields. -/
def ofFloat (number : Float) : Binary64 := ofBits number.toBits.toNat

/-- Whether the gap below a number is half the gap above it: its fraction field
is 0 and the binade below has finer steps. -/
def narrowBelow (significand : Nat) (exponent : Int) : Bool :=
  significand = leadingBit && exponent > -1074

end Binary64

end Nonlocal.Decimal
