import Nonlocal.Product
import Nonlocal.Proofs.Box.Tabulated
import Nonlocal.Proofs.Identifier.Numbered
import Nonlocal.Proofs.Tuple.Products

/-!
# The table of a product box

Over exact numbers the weights of a party are shares: a weight divided by the sum of its
list. Where every party has a list for each input, a weight for each output and a
positive sum that is a word, no step of the construction fails, and the box is the table
of the products of the parties' shares. The order in which a cell is multiplied up does
not matter.
-/

namespace Nonlocal.Product

variable {weights : Weights} {inputRange outputRange party : Nat} {input output : List Nat}

/-- The weights that a party gives to the outputs when it is asked with an input. -/
def listed (weights : Weights) (party input : Nat) : List Nat :=
  (weights[party]?.bind (·[input]?)).getD []

/-- The weight of one output. -/
def weight (weights : Weights) (party input output : Nat) : Nat :=
  (listed weights party input)[output]?.getD 0

/-- The weight of one output as part of all weights of its list. -/
def share (weights : Weights) (party input output : Nat) : Rat :=
  weight weights party input output / (listed weights party input).sum

/-- The product of the shares with which the parties give their outputs. -/
def joint (weights : Weights) (input output : List Nat) : Rat :=
  ∏ party ∈ Finset.range weights.length,
    share weights party (Tuple.digitAt input party) (Tuple.digitAt output party)

/-- The table of these products, for numbered parties. -/
def table (weights : Weights) (inputRange outputRange : Nat) : Box Rat :=
  Box.tabulated (Identifier.numbered "x" weights.length)
    (Identifier.numbered "a" weights.length) inputRange outputRange (joint weights)

/-- A table has one party for each list of weights. -/
@[simp] theorem table_partyCount (weights : Weights) (inputRange outputRange : Nat) :
    (table weights inputRange outputRange).partyCount = weights.length := by
  simp [table, Box.tabulated, Box.partyCount, Identifier.numbered]

/-- Its inputs have the given range. -/
@[simp] theorem table_inputRange (weights : Weights) (inputRange outputRange : Nat) :
    (table weights inputRange outputRange).inputRange = inputRange := rfl

/-- Its outputs have the given range. -/
@[simp] theorem table_outputRange (weights : Weights) (inputRange outputRange : Nat) :
    (table weights inputRange outputRange).outputRange = outputRange := rfl

/-- Weights of a number of parties for given ranges. -/
structure Regular (weights : Weights) (inputRange outputRange : Nat) : Prop where
  inhabited : 1 ≤ weights.length
  counted : weights.length < Tuple.lengthLimit
  inputs : ∀ ofParty ∈ weights, ofParty.length = inputRange
  outputs : ∀ ofParty ∈ weights, ∀ ofInput ∈ ofParty, ofInput.length = outputRange
  inputRanged : 1 ≤ inputRange
  outputRanged : 1 ≤ outputRange
  possible : ∀ ofParty ∈ weights, ∀ ofInput ∈ ofParty, 0 < ofInput.sum
  weighable : ∀ ofParty ∈ weights, ∀ ofInput ∈ ofParty, ofInput.sum < weightLimit
  rowWords : Tuple.total inputRange weights.length < Word.limit
  columnWords : Tuple.total outputRange weights.length < Word.limit

/-- Weights can be told to be regular by going through their lists. -/
instance (weights : Weights) (inputRange outputRange : Nat) :
    Decidable (Regular weights inputRange outputRange) :=
  decidable_of_iff
    (1 ≤ weights.length ∧ weights.length < Tuple.lengthLimit
      ∧ (∀ ofParty ∈ weights, ofParty.length = inputRange)
      ∧ (∀ ofParty ∈ weights, ∀ ofInput ∈ ofParty, ofInput.length = outputRange)
      ∧ 1 ≤ inputRange ∧ 1 ≤ outputRange
      ∧ (∀ ofParty ∈ weights, ∀ ofInput ∈ ofParty, 0 < ofInput.sum)
      ∧ (∀ ofParty ∈ weights, ∀ ofInput ∈ ofParty, ofInput.sum < weightLimit)
      ∧ Tuple.total inputRange weights.length < Word.limit
      ∧ Tuple.total outputRange weights.length < Word.limit)
    ⟨fun ⟨inhabited, counted, inputs, outputs, inputRanged, outputRanged, possible, weighable,
        rowWords, columnWords⟩ => ⟨inhabited, counted, inputs, outputs, inputRanged, outputRanged,
          possible, weighable, rowWords, columnWords⟩,
      fun ⟨inhabited, counted, inputs, outputs, inputRanged, outputRanged, possible, weighable,
        rowWords, columnWords⟩ => ⟨inhabited, counted, inputs, outputs, inputRanged, outputRanged,
          possible, weighable, rowWords, columnWords⟩⟩

/-- The sum of weights is formed if it is a word of its width. -/
theorem weightTotal_eq {ε : Type} {list : List Nat} (below : list.sum < weightLimit) :
    (weightTotal list : Attempt ε Nat) = .ok list.sum := by
  have continued (start : Nat) (room : start + list.sum < weightLimit) :
      list.foldlM (fun total weight =>
          if total + weight < weightLimit then .ok (total + weight)
          else (Attempt.fail .overflow : Attempt ε Nat)) start
        = .ok (start + list.sum) := by
    clear below
    induction list generalizing start with
    | nil => rfl
    | cons weight rest inductionHypothesis =>
      rw [List.sum_cons] at room
      rw [List.foldlM_cons, if_pos (by omega), List.sum_cons, ← Nat.add_assoc]
      exact inductionHypothesis (start + weight) (by omega)
  have whole := continued 0 (by rwa [Nat.zero_add])
  rwa [Nat.zero_add] at whole

namespace Regular

variable (regular : Regular weights inputRange outputRange)

include regular

/-- Each party has a list of weights for each input. -/
theorem listed_spec {asked : Nat} (present : party < weights.length) (inside : asked < inputRange) :
    ∃ ofParty ∈ weights, weights[party]? = some ofParty
      ∧ ofParty[asked]? = some (listed weights party asked)
      ∧ listed weights party asked ∈ ofParty := by
  have member := List.getElem_mem present
  have ranged : asked < weights[party].length := by rwa [regular.inputs _ member]
  have found : listed weights party asked = weights[party][asked] := by
    simp [listed, present, ranged]
  rw [found]
  exact ⟨_, member, List.getElem?_eq_getElem present, List.getElem?_eq_getElem ranged,
    List.getElem_mem ranged⟩

/-- The list has a weight for each output. -/
theorem getElem?_listed {asked told : Nat} (present : party < weights.length)
    (askedInside : asked < inputRange) (toldInside : told < outputRange) :
    (listed weights party asked)[told]? = some (weight weights party asked told) := by
  obtain ⟨ofParty, member, -, -, isListed⟩ := regular.listed_spec present askedInside
  have ranged : told < (listed weights party asked).length := by
    rwa [regular.outputs ofParty member _ isListed]
  simp [weight, ranged]

/-- The conditional probability of a party is its share. -/
theorem conditional_eq {ε : Type} {asked told : Nat} (present : party < weights.length)
    (askedInside : asked < inputRange) (toldInside : told < outputRange) :
    (conditional weights party asked told : Attempt ε Rat)
      = .ok (share weights party asked told) := by
  obtain ⟨ofParty, member, ofPartyAt, listedAt, isListed⟩ :=
    regular.listed_spec present askedInside
  have weightAt := regular.getElem?_listed present askedInside toldInside
  have summed := weightTotal_eq (ε := ε) (regular.weighable ofParty member _ isListed)
  exact (Attempt.bind_eq_ok_iff _ _ _).mpr ⟨_, (Attempt.get_eq_ok_iff _ _ _).mpr ofPartyAt,
    (Attempt.bind_eq_ok_iff _ _ _).mpr ⟨_, (Attempt.get_eq_ok_iff _ _ _).mpr listedAt,
      (Attempt.bind_eq_ok_iff _ _ _).mpr ⟨_, summed,
        (Attempt.bind_eq_ok_iff _ _ _).mpr ⟨_, (Attempt.get_eq_ok_iff _ _ _).mpr weightAt, rfl⟩⟩⟩⟩

/-- A cell is the product of the parties' shares. -/
theorem cell_eq {ε : Type} (inputFits : Tuple.Fits inputRange weights.length input)
    (outputFits : Tuple.Fits outputRange weights.length output) :
    (cell weights input output : Attempt ε Rat) = .ok (joint weights input output) := by
  have first (count : Nat) (within : count ≤ weights.length) :
      ((List.range count).foldlM
        (fun product party => do
          let ofInput ← Attempt.get input party
          let ofOutput ← Attempt.get output party
          let probability ← conditional weights party ofInput ofOutput
          pure (product * probability))
        1 : Attempt ε Rat)
        = .ok (∏ party ∈ Finset.range count,
            share weights party (Tuple.digitAt input party) (Tuple.digitAt output party)) := by
    induction count with
    | zero => rfl
    | succ count inductionHypothesis =>
      have present : count < weights.length := within
      obtain ⟨asked, askedInside⟩ := inputFits.getElem?_eq_digitAt present
      obtain ⟨told, toldInside⟩ := outputFits.getElem?_eq_digitAt present
      rw [List.range_succ, List.foldlM_append, inductionHypothesis (by omega),
        Finset.prod_range_succ]
      simp only [bind, Except.bind, List.foldlM_cons, List.foldlM_nil,
        (Attempt.get_eq_ok_iff (ε := ε) _ _ _).mpr asked,
        (Attempt.get_eq_ok_iff (ε := ε) _ _ _).mpr told,
        regular.conditional_eq present askedInside toldInside]
      rfl
  exact first weights.length le_rfl

/-- The box is the table of these products. -/
theorem box_eq {ε : Type} :
    (box weights inputRange outputRange : Attempt ε (Box Rat))
      = .ok (table weights inputRange outputRange) := by
  have row (input : List Nat) (inputFits : Tuple.Fits inputRange weights.length input) :
      (Tuple.mapTuples outputRange weights.length fun output => cell weights input output :
          Attempt ε (List Rat))
        = .ok ((Tuple.walk outputRange weights.length).map (joint weights input)) :=
    Tuple.mapTuples_eq_map _ _ fun output outputFits => regular.cell_eq inputFits outputFits
  have matrix := Tuple.mapTuples_eq_map _ _ row
  have letter (text : String) : toString text = text := rfl
  refine (Attempt.bind_eq_ok_iff _ _ _).mpr ⟨_, matrix, ?_⟩
  simp [table, Box.tabulated, Identifier.numbered, letter, pure, Except.pure]

end Regular

end Nonlocal.Product
