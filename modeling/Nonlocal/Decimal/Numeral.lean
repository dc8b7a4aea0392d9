import Nonlocal.Word

/-!
# Reading numerals

Counts are written in decimal digits with an optional plus sign and have to be
words. Numbers may also have a sign, a point and an exponent, or be one of the
words for infinity and for a value that is not a number; they become the
nearest binary64 number, an exact half going to the even neighbour.
-/

namespace Nonlocal.Decimal

/-- The value of a digit. -/
def digitValue (digit : Char) : Nat := digit.toNat - '0'.toNat

/-- The value of digits, most significant first. -/
def ofDigits (digits : List Char) : Nat :=
  digits.foldl (fun value digit => value * 10 + digitValue digit) 0

/-- A nonempty row of digits that is a word, with an optional plus sign. -/
def readWord? (text : List Char) : Option Nat :=
  let digits := match text with
    | '+' :: rest => rest
    | other => other
  if digits.isEmpty || !digits.all Char.isDigit then none
  else Word.check? (ofDigits digits)

/-- The binary64 number nearest to `± digits · 10 ^ exponent`. -/
def nearestFloat (negative : Bool) (digits : Nat) (exponent : Int) : Float :=
  let magnitude := Float.ofScientific digits (exponent < 0) exponent.natAbs
  if negative then -magnitude else magnitude

/-- Letter case does not matter in a word for a special value. -/
def isWord (word : String) (text : List Char) : Bool :=
  text.map Char.toLower == word.toList

/-- The exponent after `e`: an optional sign and at least one digit. -/
def readExponent? : List Char → Option Int
  | '-' :: digits => unsigned digits |>.map (- ·)
  | '+' :: digits => unsigned digits
  | digits => unsigned digits
where
  /-- The exponent without a sign. -/
  unsigned (digits : List Char) : Option Int :=
    if digits.isEmpty || !digits.all Char.isDigit then none
    else some (Int.ofNat (ofDigits digits))

/-- A number without its sign. -/
def readMagnitude? (negative : Bool) (text : List Char) : Option Float :=
  if isWord "inf" text || isWord "infinity" text then
    some (if negative then -(1.0 / 0.0) else 1.0 / 0.0)
  else if isWord "nan" text then some (0.0 / 0.0)
  else
    let (whole, afterWhole) := text.span Char.isDigit
    let (fraction, afterFraction) := match afterWhole with
      | '.' :: rest => rest.span Char.isDigit
      | other => ([], other)
    if whole.isEmpty && fraction.isEmpty then none
    else
      let exponent? := match afterFraction with
        | [] => some 0
        | 'e' :: rest | 'E' :: rest => readExponent? rest
        | _ => none
      exponent?.map fun exponent =>
        nearestFloat negative (ofDigits (whole ++ fraction))
          (exponent - Int.ofNat fraction.length)

/-- A number with an optional sign. -/
def readFloat? : List Char → Option Float
  | '-' :: text => readMagnitude? true text
  | '+' :: text => readMagnitude? false text
  | text => readMagnitude? false text

end Nonlocal.Decimal
