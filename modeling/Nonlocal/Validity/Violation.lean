import Nonlocal.Box
import Nonlocal.Diagnostic
import Nonlocal.Text.Bracketed

/-!
# Violations of validity

What is wrong with a box that is not valid, with the place and the values that
show it, and the wording of each violation.
-/

namespace Nonlocal

/-- Why a declared name cannot be a variable of the model. -/
inductive NamingIssue where
  | notAnIdentifier
  | reservedWord
  | duplicate
  | generatedName
  deriving DecidableEq, Repr

/-- The wording of a naming issue. -/
def NamingIssue.message : NamingIssue → String
  | .notAnIdentifier => "not a valid identifier"
  | .reservedWord => "reserved PRISM keyword"
  | .duplicate => "declared more than once"
  | .generatedName => "clashes with a variable of the generated model"

/-- Where a party was seen to signal: the values of all other parties, and two
inputs of the party under which their outputs have different marginals. -/
structure Signal (α : Type) where
  otherInputs : List Nat
  otherOutputs : List Nat
  baselineInput : Nat
  baselineMarginal : α
  input : Nat
  marginal : α
  deriving DecidableEq, Repr

/-- The wording of a place where a party signals. -/
def Signal.message {α : Type} [ScalarText α] (signal : Signal α) : String :=
  s!"with other inputs {Text.bracketed signal.otherInputs} and other outputs " ++
  s!"{Text.bracketed signal.otherOutputs}, input {signal.baselineInput} gives marginal " ++
  s!"{ScalarText.text signal.baselineMarginal} but input {signal.input} gives " ++
  ScalarText.text signal.marginal

/-- What is wrong with a box. -/
inductive Violation (α : Type) where
  /-- A cell lies outside the unit interval. -/
  | cellValue (row column : Nat) (value : α)
  /-- One side has no values. -/
  | emptyRange (side : Side) (range : Nat)
  /-- One side has more tuples than there are words. -/
  | tooManyTuples (side : Side) (range parties : Nat)
  /-- The number of rows is not the number of input tuples. -/
  | rowCount (expected actual : Nat)
  /-- The length of a row is not the number of output tuples. -/
  | rowLength (row expected actual : Nat)
  /-- A row does not sum to 1. -/
  | rowSum (row : Nat) (total : α)
  /-- There is nobody to take part. -/
  | noParties
  /-- Inputs and outputs do not pair up. -/
  | unequalParties (inputs outputs : Nat)
  /-- A name cannot be a variable of the model. -/
  | naming (name : String) (issue : NamingIssue)
  /-- The input of a party shows in the outputs of the others. -/
  | signalling (party : Nat) (signal : Signal α)
  /-- The tolerance is no finite number from 0 upwards. -/
  | unusableTolerance (tolerance : α)
  /-- A check looked up a cell that is not there. -/
  | lookup (error : LookupError)
  deriving DecidableEq, Repr

namespace Violation

variable {α : Type}

/-- The wording of a violation. -/
def message [ScalarText α] : Violation α → String
  | .cellValue row column value =>
    s!"Invalid probability {ScalarText.text value} at row {row}, column {column}"
  | .emptyRange side range =>
    s!"Invalid {side.name} range {range}: at least one value is required"
  | .tooManyTuples side range parties =>
    s!"Too many {side.name} tuples: {range}^{parties} does not fit the index space"
  | .rowCount expected actual => s!"Expected {expected} rows, got {actual}"
  | .rowLength row expected actual =>
    s!"Error in row {row}: Expected {expected} values, got {actual}"
  | .rowSum row total =>
    s!"Error in row {row}: Expected sum of 1.0, got {ScalarText.text total}"
  | .noParties => "Box declares no parties"
  | .unequalParties inputs outputs =>
    s!"Unequal parties: {inputs} inputs but {outputs} outputs"
  | .naming name issue => s!"Invalid variable '{name}': {issue.message}"
  | .signalling party signal =>
    s!"Signalling found: party {party} can signal through its input ({signal.message})"
  | .unusableTolerance tolerance =>
    s!"Invalid tolerance {ScalarText.text tolerance}: must be a finite, non-negative number"
  | .lookup error => error.message

/-- The code under which a violation is documented. -/
def code : Violation α → String
  | .cellValue .. => "qgrady::validate::value"
  | .emptyRange .. => "qgrady::validate::range"
  | .tooManyTuples .. => "qgrady::validate::dimension"
  | .rowCount .. => "qgrady::validate::row_count"
  | .rowLength .. => "qgrady::validate::row_length"
  | .rowSum .. => "qgrady::validate::row_sum"
  | .noParties => "qgrady::validate::no_parties"
  | .unequalParties .. => "qgrady::validate::parties"
  | .naming .. => "qgrady::validate::variable"
  | .signalling .. => "qgrady::validate::signalling"
  | .unusableTolerance _ => "qgrady::validate::tolerance"
  | .lookup _ => "qgrady::validate::index"

/-- What to do about a violation, where there is something to say. -/
def help : Violation α → Option String
  | .cellValue .. => some "every probability must lie in [0, 1]"
  | .rowCount .. =>
    some "a box needs one row per input tuple, i.e. input_range^parties rows"
  | .unequalParties .. => some "every party has exactly one input and one output variable"
  | .signalling .. =>
    some "the other parties' joint marginal must not depend on this party's input"
  | _ => none

/-- The report of a violation in a box without a source text. -/
def diagnostic [ScalarText α] (violation : Violation α) : Diagnostic where
  message := violation.message
  code := some violation.code
  help := violation.help
  labels := []

end Violation

end Nonlocal
