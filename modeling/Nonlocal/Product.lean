import Nonlocal.Box

/-!
# Product boxes

A box in which every party answers on its own: weights say how often a party
gives each output to each input, and a cell is the product of the parties'
conditional probabilities. Such a box never signals.
-/

namespace Nonlocal.Product

/-- The weights of every party, by input and then by output. -/
abbrev Weights := List (List (List Nat))

/-- Weights and their sums are words of 32 bits. -/
def weightLimit : Nat := Nat.pow 2 32

variable {ε α : Type}

/-- The sum of weights. -/
def weightTotal (weights : List Nat) : Attempt ε Nat :=
  weights.foldlM
    (fun total weight =>
      if total + weight < weightLimit then .ok (total + weight)
      else Attempt.fail .overflow)
    0

/-- The probability with which a party gives an output to an input. -/
def conditional [Div α] [Scalar α] (weights : Weights) (party input output : Nat) :
    Attempt ε α := do
  let ofParty ← Attempt.get weights party
  let ofInput ← Attempt.get ofParty input
  let total ← weightTotal ofInput
  let weight ← Attempt.get ofInput output
  pure (Scalar.ofNat weight / Scalar.ofNat total)

/-- The product of the parties' conditional probabilities. -/
def cell [One α] [Mul α] [Div α] [Scalar α] (weights : Weights) (input output : List Nat) :
    Attempt ε α :=
  (List.range weights.length).foldlM
    (fun product party => do
      let ofInput ← Attempt.get input party
      let ofOutput ← Attempt.get output party
      let probability ← conditional weights party ofInput ofOutput
      pure (product * probability))
    1

/-- The box of independent parties `x0`, `x1`, … with outputs `a0`, `a1`, …. -/
def box [One α] [Mul α] [Div α] [Scalar α] (weights : Weights)
    (inputRange outputRange : Nat) : Attempt ε (Box α) := do
  let parties := weights.length
  let matrix ← Tuple.mapTuples inputRange parties fun input =>
    Tuple.mapTuples outputRange parties fun output => cell weights input output
  pure {
    inputs := (List.range parties).map fun party => s!"x{party}"
    outputs := (List.range parties).map fun party => s!"a{party}"
    inputRange := inputRange
    outputRange := outputRange
    matrix := matrix }

end Nonlocal.Product
