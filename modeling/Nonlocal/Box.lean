import Nonlocal.Tuple.Walk
import Nonlocal.Scalar

/-!
# Boxes

A box is a conditional distribution `P(outputs | inputs)` for a number of
parties, each with one input and one output. Its matrix has one row per input
tuple and one column per output tuple, both addressed by tuple index. A box may
have any shape; the validity checks say which shapes make sense.

Looking up a cell never fails without a reason: a tuple can have the wrong
length or a digit outside its range, or address a cell that is not there.
-/

namespace Nonlocal

/-- The side of a box that a tuple belongs to. -/
inductive Side where
  | input
  | output
  deriving DecidableEq, Repr

/-- The word for a side in messages. -/
def Side.name : Side → String
  | .input => "input"
  | .output => "output"

/-- A joint conditional probability table. -/
structure Box (α : Type) where
  /-- Input variable of each party. -/
  inputs : List String
  /-- Output variable of each party. -/
  outputs : List String
  /-- Number of values of every input. -/
  inputRange : Nat
  /-- Number of values of every output. -/
  outputRange : Nat
  /-- One row per input tuple, one cell per output tuple. -/
  matrix : List (List α)
  deriving DecidableEq, Repr

/-- Why a lookup has no answer. -/
inductive LookupError where
  | length (side : Side) (expected actual : Nat)
  | digit (side : Side) (party value range : Nat)
  | missingCell (row column : Nat)
  deriving DecidableEq, Repr

/-- The wording of a failed lookup. -/
def LookupError.message : LookupError → String
  | .length side expected actual =>
    s!"{side.name} tuple has {actual} digits, expected one per party ({expected})"
  | .digit side party value range =>
    s!"{side.name} value {value} of party {party} is outside range 0..{range}"
  | .missingCell row column => s!"no cell at row {row}, column {column}"

namespace Box

variable {α : Type}

/-- The number of parties is the number of inputs. -/
def partyCount (box : Box α) : Nat := box.inputs.length

/-- The variables on one side. -/
def names (box : Box α) : Side → List String
  | .input => box.inputs
  | .output => box.outputs

/-- The number of values on one side. -/
def range (box : Box α) : Side → Nat
  | .input => box.inputRange
  | .output => box.outputRange

/-- The row or column of a tuple. One whose index outgrows its word addresses no
stored cell. -/
def index (box : Box α) (side : Side) (digits : List Nat) : Except LookupError Nat :=
  if digits.length ≠ (box.names side).length then
    .error (.length side (box.names side).length digits.length)
  else
    match Tuple.encode (box.range side) digits with
    | .ok index => .ok index
    | .error (.digitOutOfRange position digit _) =>
      .error (.digit side position digit (box.range side))
    | .error (.overflow _ _) => .error (.missingCell Word.greatest Word.greatest)

/-- The cell in a row and column. -/
def cell? (box : Box α) (row column : Nat) : Option α :=
  box.matrix[row]?.bind (·[column]?)

/-- The probability of an output tuple given an input tuple. The input tuple is
looked at first. -/
def prob (box : Box α) (input output : List Nat) : Except LookupError α :=
  match box.index .input input with
  | .error error => .error error
  | .ok row =>
    match box.index .output output with
    | .error error => .error error
    | .ok column =>
      match box.cell? row column with
      | some value => .ok value
      | none => .error (.missingCell row column)

end Box

end Nonlocal
