import Nonlocal.Decimal.Numeral
import Nonlocal.Record.Cursor

/-!
# Numbers in records

A numeral without a point and an exponent is an integer if it fits its word, 64
bits without a sign and 63 with one; every other numeral is a binary64 number.

That number need not be the nearest one. The digits are gathered into a word
for as long as they fit, later ones are dropped, and the word is then
multiplied or divided by a power of ten, each step rounded on its own.
-/

namespace Nonlocal.Record

/-- A number as it is read. -/
inductive Number where
  /-- An integer from 0 upwards. -/
  | natural (value : Nat)
  /-- An integer below 0, given by its magnitude. -/
  | negative (magnitude : Nat)
  | floating (value : Float)

/-- The description of a number in messages. -/
def Number.found : Number → Found
  | .natural value => .integer (Int.ofNat value)
  | .negative magnitude => .integer (-Int.ofNat magnitude)
  | .floating value => .floating value

/-- A number as a binary64 number; integers go to the nearest one. -/
def Number.toFloat : Number → Float
  | .natural value => Float.ofNat value
  | .negative magnitude => -Float.ofNat magnitude
  | .floating value => value

/-- The parts of a numeral. -/
structure Numeral where
  isNegative : Bool
  whole : List Char
  /-- The digits after the point. -/
  fraction : Option (List Char)
  /-- Whether the exponent is below 0, and its digits. -/
  exponent : Option (Bool × List Char)

/-- A nonempty row of digits. -/
def readDigits (atEnd : Failure) : Reader (List Char) := fun text =>
  match text with
  | [] => .error atEnd
  | first :: rest =>
    if first.isDigit then
      .ok (first :: rest.takeWhile Char.isDigit, (Tail.dropWhile Char.isDigit rest).after first)
    else .error .malformed

/-- The digits before the point: a single zero, or digits that start with another
one. -/
def readWhole (atEnd : Failure) : Reader (List Char) := fun text =>
  match text with
  | '0' :: rest =>
    if (rest.head?.map Char.isDigit).getD false then .error .malformed
    else .ok (['0'], (Tail.whole rest).after '0')
  | text => readDigits atEnd text

/-- The result of reading a part that may be absent: the part and what is left,
which may be all of the text. -/
abbrev PartReading (α : Type) (text : List Char) := Except Failure (Option α × Tail text)

/-- A part that is there. -/
def PartReading.present {α : Type} {text : List Char} (value : α) (tail : Tail text) :
    PartReading α text :=
  .ok (some value, tail)

/-- A part that is not there. -/
def PartReading.absent {α : Type} (text : List Char) : PartReading α text :=
  .ok (none, Tail.whole text)

/-- A point and digits, if there is a point. -/
def readFraction (atEnd : Failure) (text : List Char) : PartReading (List Char) text :=
  match text with
  | '.' :: rest =>
    match readDigits atEnd rest with
    | .ok (digits, later) => .present digits (later.after '.').toTail
    | .error failure => .error failure
  | text => .absent text

/-- The digits of an exponent after its sign; the text is a tail of `whole`. -/
def readPower (atEnd : Failure) (isNegative : Bool) {whole : List Char} (text : Tail whole) :
    PartReading (Bool × List Char) whole :=
  match readDigits atEnd text.1 with
  | .ok (digits, rest) => .present (isNegative, digits) (text.tail rest.toTail)
  | .error failure => .error failure

/-- An exponent, if there is one. -/
def readExponent (atEnd : Failure) (text : List Char) :
    PartReading (Bool × List Char) text :=
  match text with
  | [] => .absent []
  | letter :: rest =>
    if letter = 'e' || letter = 'E' then
      match rest with
      | '+' :: digits =>
        readPower atEnd false (((Tail.whole digits).after '+').after letter).toTail
      | '-' :: digits =>
        readPower atEnd true (((Tail.whole digits).after '-').after letter).toTail
      | digits => readPower atEnd false ((Tail.whole digits).after letter).toTail
    else .absent (letter :: rest)

/-- A numeral after its sign. -/
def readUnsigned (atEnd : Failure) (isNegative : Bool) : Reader Numeral := fun text =>
  match readWhole atEnd text with
  | .error failure => .error failure
  | .ok (whole, rest) =>
    match readFraction atEnd rest.1 with
    | .error failure => .error failure
    | .ok (fraction, later) =>
      match readExponent atEnd later.1 with
      | .error failure => .error failure
      | .ok (exponent, last) =>
        .ok (⟨isNegative, whole, fraction, exponent⟩, rest.tail (later.tail last))

/-- A numeral. -/
def readNumeral (atEnd : Failure) : Reader Numeral := fun text =>
  match text with
  | '-' :: rest =>
    match readUnsigned atEnd true rest with
    | .ok (numeral, later) => .ok (numeral, later.after '-')
    | .error failure => .error failure
  | text => readUnsigned atEnd false text

/-- Gathers digits into a word for as long as they fit. The second number counts
the digits that did. -/
def gather : (significand used : Nat) → List Char → Nat × Nat
  | significand, used, [] => (significand, used)
  | significand, used, digit :: rest =>
    let longer := significand * 10 + Decimal.digitValue digit
    if longer < Word.limit then gather longer (used + 1) rest else (significand, used)

/-- The greatest power of ten that is used in one step. -/
def powerLimit : Nat := 308

/-- The binary64 number nearest to a power of ten. -/
def powerOfTen (exponent : Nat) : Float := Float.ofScientific 1 false exponent

/-- Multiplies or divides by a power of ten. A result that is infinite is refused;
a power below the limit is divided out in several steps. -/
def scale? (value : Float) (exponent : Int) : Option Float :=
  if exponent.natAbs ≤ powerLimit then
    if 0 ≤ exponent then
      let scaled := value * powerOfTen exponent.natAbs
      if scaled.isInf then none else some scaled
    else some (value / powerOfTen exponent.natAbs)
  else if value == 0 then some value
  else if 0 ≤ exponent then none
  else scale? (value / powerOfTen powerLimit) (exponent + powerLimit)
termination_by exponent.natAbs
decreasing_by
  simp only [powerLimit] at *
  omega

/-- The greatest exponent that is computed with. -/
def exponentLimit : Nat := Nat.pow 2 31 - 1

/-- The magnitude of a numeral that is no integer. Beyond `exponentLimit` only the
sign of the exponent matters. -/
def Numeral.magnitude? (numeral : Numeral) : Option Float :=
  let (wholePart, wholeUsed) := gather 0 0 numeral.whole
  let dropped := numeral.whole.length - wholeUsed
  let (significand, fractionUsed) := gather wholePart 0 (numeral.fraction.getD [])
  let start := Int.ofNat dropped - Int.ofNat fractionUsed
  match numeral.exponent with
  | none => scale? (Float.ofNat significand) start
  | some (isNegative, digits) =>
    let exponent := Decimal.ofDigits digits
    if exponentLimit < exponent then
      if significand = 0 || isNegative then some 0 else none
    else
      scale? (Float.ofNat significand)
        (if isNegative then start - Int.ofNat exponent else start + Int.ofNat exponent)

/-- The number of a numeral, if it is in range. -/
def Numeral.number? (numeral : Numeral) : Option Number :=
  let value := Decimal.ofDigits numeral.whole
  if numeral.fraction.isNone && numeral.exponent.isNone && value < Word.limit then
    if !numeral.isNegative then some (.natural value)
    else if 0 < value && value ≤ Word.greatestSigned + 1 then some (.negative value)
    else some (.floating (-Float.ofNat value))
  else
    numeral.magnitude?.map fun magnitude =>
      .floating (if numeral.isNegative then -magnitude else magnitude)

/-- A number; one that is out of range is malformed. -/
def readNumber : Reader Number := fun text =>
  match readNumeral .truncated text with
  | .error failure => .error failure
  | .ok (numeral, rest) =>
    match numeral.number? with
    | some number => .ok (number, rest)
    | none => .error .malformed

/-- Skips a numeral without asking for its range. A text that ends where a digit has
to be is malformed. -/
def skipNumber (text : List Char) : Except Failure (Rest text) :=
  match readNumeral .malformed text with
  | .ok (_, rest) => .ok rest
  | .error failure => .error failure

end Nonlocal.Record
