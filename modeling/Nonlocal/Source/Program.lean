import Nonlocal.Box
import Nonlocal.Diagnostic
import Nonlocal.Validity.Violation

/-!
# Programs

A program is what a source says: names, ranges and rows of literals, each with
the span of bytes it was read from. Literals keep the number that was written;
`Program.toBox` computes them in a number type.
-/

namespace Nonlocal.Source

/-- Something that was read from a span of the source. -/
structure Spanned (α : Type) where
  node : α
  span : Span
  deriving DecidableEq, Repr

/-- A written probability. -/
inductive Literal where
  /-- `± digits / 10 ^ places`. -/
  | decimal (negative : Bool) (digits places : Nat)
  | fraction (numerator denominator : Nat)
  deriving DecidableEq, Repr

/-- The number of a literal. Numerator and denominator are rounded before the
division. -/
def Literal.value {α : Type} [Div α] [Scalar α] : Literal → α
  | .decimal negative digits places => Scalar.ofDecimal negative digits places
  | .fraction numerator denominator => Scalar.ofNat numerator / Scalar.ofNat denominator

/-- The numbers of values of inputs and outputs. -/
structure Ranges where
  input : Nat
  output : Nat
  deriving DecidableEq, Repr

/-- What a source says. -/
structure Program where
  /-- The whole source. -/
  span : Span
  inputs : List (Spanned String)
  outputs : List (Spanned String)
  ranges : Spanned Ranges
  rows : List (Spanned (List Literal))
  deriving DecidableEq, Repr

namespace Program

/-- All declared names, inputs first. -/
def names (program : Program) : List (Spanned String) := program.inputs ++ program.outputs

/-- Where a name is declared first. -/
def nameSpan? (program : Program) (name : String) : Option Span :=
  (program.names.find? (·.node == name)).map (·.span)

/-- Where a name is declared last. -/
def lastNameSpan? (program : Program) (name : String) : Option Span :=
  (program.names.reverse.find? (·.node == name)).map (·.span)

/-- Where a row is written. -/
def rowSpan? (program : Program) (row : Nat) : Option Span :=
  program.rows[row]?.map (·.span)

/-- The box that a program describes, whatever its shape. -/
def toBox {α : Type} [Div α] [Scalar α] (program : Program) : Box α where
  inputs := program.inputs.map (·.node)
  outputs := program.outputs.map (·.node)
  inputRange := program.ranges.node.input
  outputRange := program.ranges.node.output
  matrix := program.rows.map fun row => row.node.map Literal.value

end Program

end Nonlocal.Source

namespace Nonlocal.Violation

open Source (Program)

variable {α : Type}

/-- The place in a program that a violation is about: a row, the first surplus row,
the ranges, the last declaration of a name, or a party's input. -/
def span? (violation : Violation α) (program : Program) : Option Span :=
  match violation with
  | .cellValue row _ _ | .rowLength row _ _ | .rowSum row _ => program.rowSpan? row
  | .rowCount expected actual =>
    if expected < actual then program.rowSpan? expected else some program.ranges.span
  | .emptyRange _ _ | .tooManyTuples _ _ _ => some program.ranges.span
  | .unequalParties _ _ | .noParties =>
    (program.outputs.getLast?.map (·.span)).or (some program.span)
  | .naming name _ => program.lastNameSpan? name
  | .signalling party _ => program.inputs[party]?.map (·.span)
  | .lookup _ | .unusableTolerance _ => none

/-- The report of a violation in a box that was read from a source. -/
def sourceDiagnostic [ScalarText α] (violation : Violation α) (program : Program) :
    Diagnostic where
  message := violation.message
  code := some "qgrady::validate"
  help := none
  labels := (violation.span? program).toList.map fun span => ⟨span, "here"⟩

end Nonlocal.Violation
