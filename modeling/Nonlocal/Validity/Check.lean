import Nonlocal.Identifier
import Nonlocal.Validity.Violation

/-!
# Validity checks

Seven checks make a box valid. They run in a fixed order and the first failure
is the verdict; each later check relies on the shape that the earlier ones have
established, and answers with a failed lookup if that shape is missing.
-/

namespace Nonlocal

variable {α : Type}

/-- The validity checks. -/
inductive Check where
  | valueRange
  | rowCount
  | rowLength
  | rowSum
  | partyBalance
  | variableNaming
  | nonSignalling
  deriving DecidableEq, Repr

/-- The checks in the order in which they run. -/
def Check.all : List Check :=
  [.valueRange, .rowCount, .rowLength, .rowSum, .partyBalance, .variableNaming,
    .nonSignalling]

/-- The name of a check in messages. -/
def Check.name : Check → String
  | .valueRange => "value range"
  | .rowCount => "row count"
  | .rowLength => "row length"
  | .rowSum => "row sum"
  | .partyBalance => "party balance"
  | .variableNaming => "variable naming"
  | .nonSignalling => "non-signalling"

namespace Validity

/-- A tolerance has to be a finite number from 0 upwards. -/
def ensureUsable [Zero α] [LT α] [DecidableLT α] [Scalar α] (tolerance : α) :
    Except (Violation α) Unit :=
  if !Scalar.isFinite tolerance || tolerance < 0 then .error (.unusableTolerance tolerance)
  else .ok ()

/-- Whether a number lies in the unit interval. -/
def inUnitInterval [Zero α] [One α] [LE α] [DecidableLE α] (value : α) : Bool :=
  0 ≤ value && value ≤ 1

/-- Every cell lies in the unit interval. -/
def checkValueRange [Zero α] [One α] [LE α] [DecidableLE α] (box : Box α) :
    Except (Violation α) Unit :=
  box.matrix.zipIdx.forM fun (cells, row) =>
    cells.zipIdx.forM fun (value, column) =>
      if inUnitInterval value then .ok () else .error (.cellValue row column value)

/-- The number of tuples of one side with the given number of parties. -/
def dimension (side : Side) (range parties : Nat) : Except (Violation α) Nat :=
  if range = 0 then .error (.emptyRange side range)
  else
    match Tuple.count? range parties with
    | some count => .ok count
    | none => .error (.tooManyTuples side range parties)

/-- Neither range is empty and there is one row per input tuple. -/
def checkRowCount (box : Box α) : Except (Violation α) Unit := do
  let _ ← dimension .output box.outputRange 0
  let expected ← dimension .input box.inputRange box.inputs.length
  if box.matrix.length = expected then .ok ()
  else .error (.rowCount expected box.matrix.length)

/-- Every row has one cell per output tuple. -/
def checkRowLength (box : Box α) : Except (Violation α) Unit := do
  let expected ← dimension .output box.outputRange box.outputs.length
  box.matrix.zipIdx.forM fun (cells, row) =>
    if cells.length = expected then .ok ()
    else .error (.rowLength row expected cells.length)

/-- Every row sums to 1 within the tolerance. -/
def checkRowSum [One α] [Add α] [Sub α] [LT α] [DecidableLT α] [Scalar α] (box : Box α)
    (tolerance : α) : Except (Violation α) Unit :=
  box.matrix.zipIdx.forM fun (cells, row) =>
    let total := rowTotal cells
    if tolerance < Scalar.abs (total - 1) then .error (.rowSum row total) else .ok ()

/-- There are parties, and each has one input and one output. -/
def checkPartyBalance (box : Box α) : Except (Violation α) Unit :=
  if box.inputs.length ≠ box.outputs.length then
    .error (.unequalParties box.inputs.length box.outputs.length)
  else if box.inputs.length = 0 then .error .noParties
  else .ok ()

/-- What is wrong with a name that is declared after others, generated names apart. -/
def namingIssue? (declared : List String) (name : String) : Option NamingIssue :=
  if !Identifier.isIdentifier name then some .notAnIdentifier
  else if Identifier.isReserved name then some .reservedWord
  else if declared.contains name then some .duplicate
  else none

/-- The first name with an issue of its own. -/
def checkDeclared (declared : List String) : List String → Except (Violation α) Unit
  | [] => .ok ()
  | name :: rest =>
    match namingIssue? declared name with
    | some issue => .error (.naming name issue)
    | none => checkDeclared (declared ++ [name]) rest

/-- Every name is an identifier, no reserved word and declared once; only then is
each compared with the names of the generated model. -/
def checkVariableNaming (box : Box α) : Except (Violation α) Unit := do
  let names := box.inputs ++ box.outputs
  checkDeclared [] names
  match names.find? fun name => Identifier.isGenerated name box.inputs box.inputRange with
  | some name => .error (.naming name .generatedName)
  | none => .ok ()

/-- The marginal of the other parties' outputs: the sum over the outputs of one
party, with that party's input given. -/
def othersMarginal [Zero α] [Add α] (box : Box α) (party : Nat)
    (otherInputs otherOutputs : List Nat) (input : Nat) : Attempt (Violation α) α := do
  let fullInput ← Tuple.insertAt otherInputs party input
  foldValues
    (fun total output => do
      let fullOutput ← Tuple.insertAt otherOutputs party output
      let probability ←
        Attempt.ofExcept (box.prob fullInput fullOutput) |>.mapRefusal Violation.lookup
      pure (total + probability))
    box.outputRange 0 0

/-- One party's inputs above 0 all leave the others' marginal where input 0 puts
it, for one assignment of the others. -/
def checkAssignment [Zero α] [Add α] [Sub α] [LT α] [DecidableLT α] [Scalar α] (box : Box α)
    (tolerance : α) (party : Nat) (otherInputs otherOutputs : List Nat) :
    Attempt (Violation α) Unit := do
  let baseline ← othersMarginal box party otherInputs otherOutputs 0
  foldValues
    (fun _ input => do
      let marginal ← othersMarginal box party otherInputs otherOutputs input
      if tolerance < Scalar.abs (marginal - baseline) then
        Attempt.refuse (.signalling party
          ⟨otherInputs, otherOutputs, 0, baseline, input, marginal⟩)
      else pure ())
    (box.inputRange - 1) 1 ()

/-- No party's input shows in the joint outputs of the others. -/
def checkNonSignalling [Zero α] [Add α] [Sub α] [LT α] [DecidableLT α] [Scalar α]
    (box : Box α) (tolerance : α) : Attempt (Violation α) Unit :=
  foldValues
    (fun _ party => do
      let others ← Word.sub box.partyCount 1
      Tuple.foldTuples box.inputRange others
        (fun _ otherInputs =>
          Tuple.foldTuples box.outputRange others
            (fun _ otherOutputs =>
              checkAssignment box tolerance party otherInputs otherOutputs)
            ())
        ())
    box.partyCount 0 ()

section

variable [Zero α] [One α] [Add α] [Sub α] [LT α] [DecidableLT α] [LE α] [DecidableLE α]
  [Scalar α]

/-- Runs one check, provided that the tolerance is usable. -/
def runCheck (check : Check) (box : Box α) (tolerance : α) : Attempt (Violation α) Unit := do
  Attempt.ofExcept (ensureUsable tolerance)
  match check with
  | .valueRange => Attempt.ofExcept (checkValueRange box)
  | .rowCount => Attempt.ofExcept (checkRowCount box)
  | .rowLength => Attempt.ofExcept (checkRowLength box)
  | .rowSum => Attempt.ofExcept (checkRowSum box tolerance)
  | .partyBalance => Attempt.ofExcept (checkPartyBalance box)
  | .variableNaming => Attempt.ofExcept (checkVariableNaming box)
  | .nonSignalling => checkNonSignalling box tolerance

/-- Runs all checks in their order. -/
def validate (box : Box α) (tolerance : α) : Attempt (Violation α) Unit :=
  Check.all.forM fun check => runCheck check box tolerance

/-- How a row of checks ends: the checks that pass, and the one that does not. -/
structure Examination (α : Type) where
  passed : List Check
  failed : Option (Check × Stop (Violation α))

/-- What an examination says of the box. -/
def Examination.verdict (examination : Examination α) : Attempt (Violation α) Unit :=
  match examination.failed with
  | none => .ok ()
  | some (_, stop) => .error stop

/-- Runs checks one after another up to the first that does not pass. -/
def examine (box : Box α) (tolerance : α) : List Check → Examination α
  | [] => ⟨[], none⟩
  | check :: rest =>
    match runCheck check box tolerance with
    | .error stop => ⟨[], some (check, stop)⟩
    | .ok () =>
      let later := examine box tolerance rest
      ⟨check :: later.passed, later.failed⟩

/-- An examination comes to the same verdict as the checks in a row. -/
theorem verdict_examine (box : Box α) (tolerance : α) (checks : List Check) :
    (examine box tolerance checks).verdict
      = checks.forM fun check => runCheck check box tolerance := by
  induction checks with
  | nil => rfl
  | cons check rest inductionHypothesis =>
    have inTurn : (check :: rest).forM (fun check => runCheck check box tolerance)
        = runCheck check box tolerance >>= fun _ =>
            rest.forM fun check => runCheck check box tolerance := rfl
    rw [inTurn, ← inductionHypothesis, examine]
    cases runCheck check box tolerance <;> rfl

end

/-- The tolerance that is used where none is asked for. -/
def defaultTolerance [Scalar α] : α := Scalar.ofDecimal false 1 5

end Validity

end Nonlocal
