import Nonlocal.Box

/-!
# Queries on a box

Two probabilities drive the disclosure of outputs. `reducedProb` is the
marginal of one party, averaged over the inputs of all others; it decides the
first output. `normalisedProb` is the distribution of one party's output
given the inputs and the outputs that are known, with the parties that are
still to answer summed out; it decides every later output.
-/

namespace Nonlocal

/-- Why a query has no answer. -/
inductive QueryError where
  | unknownParty (party parties : Nat)
  | valueOutOfRange (side : Side) (value range : Nat)
  | noPending
  | invalidPending (party : Nat)
  | lookup (error : LookupError)
  deriving DecidableEq, Repr

/-- The wording of a refused query. -/
def QueryError.message : QueryError → String
  | .unknownParty party parties => s!"Unknown party {party}: the box has {parties} parties"
  | .valueOutOfRange side value range =>
    s!"{side.name} value {value} is outside range 0..{range}"
  | .noPending => "At least one pending party is required"
  | .invalidPending party => s!"Pending party {party} is out of range or listed twice"
  | .lookup error => s!"Table lookup failed: {error.message}"

namespace Box

variable {α : Type}

/-- A lookup as part of a query. -/
def queryProb (box : Box α) (input output : List Nat) : Attempt QueryError α :=
  Attempt.ofExcept (box.prob input output) |>.mapRefusal .lookup

/-- A value has to lie in the range of its side. -/
def ensureValue (box : Box α) (side : Side) (value : Nat) : Attempt QueryError Unit :=
  if value < box.range side then .ok ()
  else Attempt.refuse (.valueOutOfRange side value (box.range side))

/-- The joint probabilities of one party's input and output, summed over all
others, with the number of assignments to the others' inputs. -/
def jointSum [Zero α] [Add α] (box : Box α) (party input output : Nat) :
    Attempt QueryError (α × Nat) := do
  let others ← Word.sub box.partyCount 1
  Tuple.foldTuples box.inputRange others
    (fun (total, assignments) otherInputs => do
      let assignments ← Word.add assignments 1
      let fullInput ← Tuple.insertAt otherInputs party input
      let total ← Tuple.foldTuples box.outputRange others
        (fun total otherOutputs => do
          let fullOutput ← Tuple.insertAt otherOutputs party output
          let probability ← box.queryProb fullInput fullOutput
          pure (total + probability))
        total
      pure (total, assignments))
    (0, 0)

/-- The probability that a party answers `output` to `input`, averaged over the
inputs of the others. -/
def reducedProb [Zero α] [Add α] [Div α] [Scalar α] (box : Box α)
    (party input output : Nat) : Attempt QueryError α := do
  if party < box.partyCount then
    box.ensureValue .input input
    box.ensureValue .output output
    let (total, assignments) ← box.jointSum party input output
    pure (total / Scalar.ofNat assignments)
  else Attempt.refuse (.unknownParty party box.partyCount)

/-- Replaces the digits at some positions; positions beyond the tuple are left out. -/
def overwrite (digits : List Nat) : (positions values : List Nat) → List Nat
  | position :: positions, value :: values =>
    overwrite (digits.set position value) positions values
  | _, _ => digits

/-- The probabilities of all output tuples that agree with `output` outside the
given positions, summed. -/
def summedOut [Zero α] [Add α] (box : Box α) (input output positions : List Nat) :
    Attempt QueryError α :=
  Tuple.foldTuples box.outputRange positions.length
    (fun total values => do
      let probability ← box.queryProb input (overwrite output positions values)
      pure (total + probability))
    0

/-- Every pending party exists and is listed once; `listed` holds those before. -/
def ensurePending (parties : Nat) (listed : List Nat) : List Nat → Attempt QueryError Unit
  | [] => .ok ()
  | party :: rest =>
    if parties ≤ party || listed.contains party then Attempt.refuse (.invalidPending party)
    else ensurePending parties (listed ++ [party]) rest

/-- The probability of the first pending party's output, given the inputs and the
outputs of all parties that are not pending; 0 if those outputs are impossible. -/
def normalisedProb [Zero α] [Add α] [Div α] [BEq α] (box : Box α)
    (input output pending : List Nat) : Attempt QueryError α :=
  match pending with
  | [] => Attempt.refuse .noPending
  | candidate :: rest => do
    ensurePending box.partyCount [] pending
    let numerator ← box.summedOut input output rest
    let denominator ← foldValues
      (fun total value => do
        let part ← box.summedOut input (output.set candidate value) rest
        pure (total + part))
      box.outputRange 0 0
    pure (if denominator == 0 then 0 else numerator / denominator)

end Box

end Nonlocal
