import Nonlocal.Identifier
import Nonlocal.Model.Basic
import Nonlocal.PartySet
import Nonlocal.Probability

/-!
# The progressive disclosure protocol

The model of a box has one module per input and one for all outputs. An input
module draws values uniformly and hands each over on a label of its own. The
output module copies the value, lowers its ready flag, discloses exactly one
output and raises the flag again.

The first output follows the marginal of its party. Every later one follows the
distribution that is conditioned on all inputs and outputs revealed so far; the
parties that are still pending are summed out, with their inputs set to 0. Only
outcomes with positive probability become branches, and only histories with a
branch become commands.
-/

namespace Nonlocal

/-- What a box has to be before a model can be made of it. -/
inductive Precondition where
  | balanced (inputs outputs : Nat)
  | inhabited
  | fewEnough (parties : Nat)
  | ranged
  | shaped
  deriving DecidableEq, Repr

/-- How the lack of a precondition is worded. -/
def Precondition.message : Precondition → String
  | .balanced inputs outputs => s!"{inputs} inputs but {outputs} outputs"
  | .inhabited => "no parties"
  | .fewEnough parties =>
    s!"{parties} parties exceed the supported maximum of {PartySet.maxParties}"
  | .ranged => "empty input or output range"
  | .shaped => "probability matrix does not match the declared ranges"

/-- Why no model is made of a box. -/
inductive ModelError where
  | precondition (lacking : Precondition)
  | query (error : QueryError)
  deriving DecidableEq, Repr

/-- The wording of a model error. -/
def ModelError.message : ModelError → String
  | .precondition lacking => s!"precondition violated: {lacking.message}"
  | .query error => s!"probability query failed: {error.message}"

namespace Disclosure

variable {α : Type}

/-- Whether there are as many rows as input tuples and each has as many cells as
there are output tuples. -/
def isShaped (box : Box α) : Bool :=
  match Tuple.count? box.inputRange box.partyCount,
      Tuple.count? box.outputRange box.partyCount with
  | some rows, some columns =>
    box.matrix.length == rows && box.matrix.all (·.length == columns)
  | _, _ => false

/-- The first precondition that a box lacks. -/
def lacking? (box : Box α) : Option Precondition :=
  let parties := box.partyCount
  if box.outputs.length ≠ parties then some (.balanced parties box.outputs.length)
  else if parties = 0 then some .inhabited
  else if PartySet.maxParties < parties then some (.fewEnough parties)
  else if box.inputRange = 0 ∨ box.outputRange = 0 then some .ranged
  else if !isShaped box then some .shaped
  else none

/-- The value of a variable that has not been set. -/
def unset : Value := .int (-1)

/-- A count as a value of the model; it stays below the greatest signed word. -/
def intValue (count : Nat) : Value := .int (Int.ofNat (min count Word.greatestSigned))

/-- A variable that is unset or has a value below `range`. -/
def rangeVariable (name : String) (range : Nat) : Declaration where
  name := name
  domain := .range (-1) (Int.ofNat (min range Word.greatestSigned) - 1)
  init := unset

/-- A branch that is taken for certain. -/
def certainBranch (updates : List Binding) : Branch α := ⟨.ratio 1 1, updates⟩

/-- The command that draws a fresh value, all values alike. -/
def coinToss (party range : Nat) (input : String) : Command α where
  key := .single .coinToss party 0
  label := none
  guard := [⟨input, unset⟩]
  branches := (List.range range).map fun value =>
    ⟨.ratio 1 range, [⟨input, intValue value⟩]⟩

/-- The command that hands a value over and clears the input. -/
def consume (party : Nat) (input : String) (value : Nat) : Command α where
  key := .single .consume party value
  label := some (Identifier.syncLabel input value)
  guard := [⟨input, intValue value⟩]
  branches := [certainBranch [⟨input, unset⟩]]

/-- The module of one party's input. -/
def inputModule {ε : Type} (box : Box α) (party : Nat) : Attempt ε (Module α) := do
  let input ← Attempt.get box.inputs party
  let range := box.inputRange
  pure {
    name := Identifier.inputModule input
    declarations := [rangeVariable input range]
    commands := coinToss party range input :: (List.range range).map (consume party input) }

/-- The command that copies a value, if the output module is ready for it. -/
def inputSync (party : Nat) (input : String) (value : Nat) : Command α where
  key := .single .inputSync party value
  label := some (Identifier.syncLabel input value)
  guard := [⟨Identifier.readyFlag, .bool true⟩, ⟨input, intValue value⟩,
    ⟨Identifier.seenVariable input, unset⟩]
  branches := [certainBranch [⟨Identifier.readyFlag, .bool false⟩,
    ⟨Identifier.seenVariable input, intValue value⟩]]

/-- The commands that copy the values of all inputs. -/
def inputSyncCommands (box : Box α) : List (Command α) :=
  box.inputs.zipIdx.flatMap fun (input, party) =>
    (List.range box.inputRange).map (inputSync party input)

/-- A branch that sets an output and raises the ready flag. -/
def disclosing (output : String) (value : Nat) (probability : α) : Branch α :=
  ⟨.decimal probability,
    [⟨output, intValue value⟩, ⟨Identifier.readyFlag, .bool true⟩]⟩

section

variable [Zero α] [Add α] [Div α] [LT α] [DecidableLT α]

/-- The output values that have positive probability, with that probability. -/
def positiveValues {ε : Type} (range : Nat) (probability : Nat → Attempt ε α) :
    Attempt ε (List (Nat × α)) := do
  let values ← (List.range range).mapM fun value => do
    let p ← probability value
    pure (value, p)
  pure (values.filter fun (_, p) => 0 < p)

/-- The command that discloses a party's output first, if any output is possible.
Its weights are rescaled to sum to 1. -/
def reducedCommand? [Scalar α] (box : Box α) (party input : Nat) :
    Attempt QueryError (Option (Command α)) := do
  let inputName ← Attempt.get box.inputs party
  let output ← Attempt.get box.outputs party
  let weights ← positiveValues box.outputRange (box.reducedProb party input)
  if weights.isEmpty then pure none
  else
    let total := rowTotal (weights.map Prod.snd)
    pure (some {
      key := { Key.single .reduced party input with subsetSize := box.partyCount }
      label := none
      guard := ⟨Identifier.readyFlag, .bool false⟩
        :: ⟨Identifier.seenVariable inputName, intValue input⟩
        :: box.outputs.map (⟨·, unset⟩)
      branches := weights.map fun (value, p) => disclosing output value (p / total) })

/-- The commands that disclose a first output. -/
def reducedCommands [Scalar α] (box : Box α) : Attempt QueryError (List (Command α)) := do
  let perParty ← (List.range box.partyCount).mapM fun party =>
    (List.range box.inputRange).filterMapM fun input => reducedCommand? box party input
  pure perParty.flatten

end

/-- A history in which some parties have answered, and the party that answers
next. The values of the revealed parties are in the order of `revealed`; `order`
holds the pending parties, the candidate first. -/
structure History where
  mask : Nat
  revealed : List Nat
  order : List Nat
  candidate : Nat
  input : Nat
  inputTuple : Nat
  knownInputs : List Nat
  outputTuple : Nat
  knownOutputs : List Nat
  deriving DecidableEq, Repr

namespace History

/-- The value of a party among values of the revealed parties, if it is one. -/
def revealedValue {ε : Type} (history : History) (values : List Nat) (party : Nat) :
    Attempt ε (Option Nat) :=
  match history.revealed.idxOf? party with
  | none => pure none
  | some slot => some <$> Attempt.get values slot

/-- A tuple for all parties: the candidate's value, the known values, and 0 for
the other pending parties. -/
def fullTuple {ε : Type} (history : History) (parties candidateValue : Nat)
    (values : List Nat) : Attempt ε (List Nat) :=
  (List.range parties).mapM fun party => do
    if party = history.candidate then pure candidateValue
    else
      let value ← history.revealedValue values party
      pure (value.getD 0)

/-- The input values that the output module has seen, in party order. -/
def seenGuard {ε : Type} (history : History) (box : Box α) : Attempt ε (List Binding) :=
  box.inputs.zipIdx.filterMapM fun (input, party) => do
    let value ←
      if party = history.candidate then pure (some history.input)
      else history.revealedValue history.knownInputs party
    pure (value.map fun value => ⟨Identifier.seenVariable input, intValue value⟩)

/-- The outputs as they are before the disclosure, in party order. -/
def outputGuard {ε : Type} (history : History) (box : Box α) : Attempt ε (List Binding) :=
  box.outputs.zipIdx.mapM fun (output, party) => do
    let value ← history.revealedValue history.knownOutputs party
    pure ⟨output, match value with
      | some value => intValue value
      | none => unset⟩

/-- The condition under which the history is the current one. -/
def guard {ε : Type} (history : History) (box : Box α) : Attempt ε (List Binding) := do
  let seen ← history.seenGuard box
  let outputs ← history.outputGuard box
  pure (⟨Identifier.readyFlag, .bool false⟩ :: seen ++ outputs)

variable [Zero α] [Add α] [Div α] [BEq α] [LT α] [DecidableLT α]

/-- The possible outputs of the candidate. -/
def branches (history : History) (box : Box α) : Attempt QueryError (List (Branch α)) := do
  let parties := box.partyCount
  let input ← history.fullTuple parties history.input history.knownInputs
  let output ← Attempt.get box.outputs history.candidate
  let values ← positiveValues box.outputRange fun value => do
    let full ← history.fullTuple parties value history.knownOutputs
    box.normalisedProb input full history.order
  pure (values.map fun (value, p) => disclosing output value p)

/-- The command that discloses the candidate's output, if any output is possible. -/
def command? (history : History) (box : Box α) :
    Attempt QueryError (Option (Command α)) := do
  let branches ← history.branches box
  if branches.isEmpty then pure none
  else
    let guard ← history.guard box
    pure (some {
      key := {
        family := .normalised
        subsetSize := history.order.length
        subsetMask := history.mask
        party := history.candidate
        inputValue := history.input
        inputTuple := history.inputTuple
        outputTuple := history.outputTuple }
      label := none
      guard := guard
      branches := branches })

end History

/-- The histories in which exactly the given parties are pending. -/
def historiesOf (inputRange outputRange parties mask : Nat) (pending : List Nat) :
    List History :=
  let revealed := (List.range parties).filter fun party => !pending.contains party
  let inputTuples := (Tuple.walk inputRange revealed.length).zipIdx
  let outputTuples := (Tuple.walk outputRange revealed.length).zipIdx
  pending.flatMap fun candidate =>
    let order := candidate :: pending.filter (· ≠ candidate)
    (List.range inputRange).flatMap fun input =>
      inputTuples.flatMap fun (knownInputs, inputTuple) =>
        outputTuples.map fun (knownOutputs, outputTuple) =>
          { mask, revealed, order, candidate, input, inputTuple, knownInputs, outputTuple,
            knownOutputs }

section

variable [Zero α] [Add α] [Div α] [BEq α] [LT α] [DecidableLT α]

/-- The commands that disclose a later output, set by set of pending parties. -/
def normalisedCommands (box : Box α) : Attempt QueryError (List (Command α)) := do
  let masks ← PartySet.proper box.partyCount
  let perMask ← masks.mapM fun mask => do
    let pending ← PartySet.members mask box.partyCount
    (historiesOf box.inputRange box.outputRange box.partyCount mask pending).filterMapM
      fun history => history.command? box
  pure perMask.flatten

/-- The variables of the output module. -/
def outputVariables (box : Box α) : List Declaration :=
  ⟨Identifier.readyFlag, .bool, .bool true⟩
    :: box.outputs.map (rangeVariable · box.outputRange)
    ++ box.inputs.map fun input => rangeVariable (Identifier.seenVariable input) box.inputRange

/-- The module that discloses the outputs. -/
def outputModule [Scalar α] (box : Box α) : Attempt QueryError (Module α) := do
  let reduced ← reducedCommands box
  let normalised ← normalisedCommands box
  pure {
    name := Identifier.outputModule
    declarations := outputVariables box
    commands := Key.sort Command.key (inputSyncCommands box ++ reduced ++ normalised) }

/-- The model of a box. -/
def model [Scalar α] (box : Box α) : Attempt ModelError (Model α) :=
  match lacking? box with
  | some lacking => Attempt.refuse (.precondition lacking)
  | none => do
    let inputModules ← (List.range box.partyCount).mapM fun party => inputModule box party
    let outputModule ← (outputModule box).mapRefusal ModelError.query
    pure ⟨.dtmc, inputModules ++ [outputModule]⟩

end

end Disclosure

end Nonlocal
