import Nonlocal.Proofs.Box.Lookup

/-!
# Boxes and their tables of likelihoods

A box of the right shape is given by the likelihoods of its tuples: read in the order of
the walks, they are its matrix. In turn every assignment of numbers to tuples is tabulated
by a box, and looking a tuple up gives its number back.
-/

namespace Nonlocal.Box

variable {α : Type} {inputs outputs : List String} {inputRange outputRange : Nat}
  {probability : List Nat → List Nat → α}

/-- The box with the given names and ranges in which each cell is the number that is given
for its tuples. -/
def tabulated (inputs outputs : List String) (inputRange outputRange : Nat)
    (probability : List Nat → List Nat → α) : Box α where
  inputs := inputs
  outputs := outputs
  inputRange := inputRange
  outputRange := outputRange
  matrix := (Tuple.walk inputRange inputs.length).map fun input =>
    (Tuple.walk outputRange outputs.length).map (probability input)

/-- A matrix with one row per input tuple and one cell per output tuple, for as many outputs
as inputs. -/
structure Rectangular (box : Box α) : Prop where
  balanced : box.outputs.length = box.partyCount
  rows : box.matrix.length = Tuple.total box.inputRange box.partyCount
  columns : ∀ row ∈ box.matrix, row.length = Tuple.total box.outputRange box.partyCount

/-- A shaped box is rectangular. -/
theorem Shaped.rectangular {box : Box α} (shaped : box.Shaped) : box.Rectangular :=
  ⟨shaped.balanced, shaped.rows, shaped.columns⟩

/-- A rectangular box that can be stored has its shape if it has parties and values. -/
theorem Rectangular.shaped {box : Box α} (rectangular : box.Rectangular)
    (storable : box.Storable) (inhabited : 0 < box.partyCount) (inputRanged : 0 < box.inputRange)
    (outputRanged : 0 < box.outputRange) : box.Shaped := by
  have words : Word.greatestSigned < Word.limit := by decide
  obtain ⟨balanced, rows, columns⟩ := rectangular
  have nonempty : 0 < box.matrix.length := rows ▸ Nat.pow_pos inputRanged
  have first := List.getElem_mem nonempty
  exact {
    balanced, inhabited, inputRanged, outputRanged, rows, columns
    rowWords := rows ▸ storable.rows.trans_lt words
    columnWords := columns _ first ▸ (storable.columns _ first).trans_lt words }

/-- A table is rectangular. -/
theorem rectangular_tabulated (balanced : outputs.length = inputs.length) :
    (tabulated inputs outputs inputRange outputRange probability).Rectangular := by
  refine ⟨balanced, ?_, ?_⟩
  · rw [tabulated, List.length_map, Tuple.length_walk]
    rfl
  · intro row member
    obtain ⟨input, -, rfl⟩ := List.mem_map.mp member
    rw [List.length_map, Tuple.length_walk, balanced]
    rfl

/-- Boxes with the same shape are stored alike. -/
theorem Rectangular.storable_of_same {box other : Box α} (rectangular : box.Rectangular)
    (otherRectangular : other.Rectangular) (samePartyCount : other.partyCount = box.partyCount)
    (sameInputs : other.inputRange = box.inputRange)
    (sameOutputs : other.outputRange = box.outputRange) (storable : box.Storable) :
    other.Storable := by
  have sameRows : other.matrix.length = box.matrix.length := by
    rw [rectangular.rows, otherRectangular.rows, samePartyCount, sameInputs]
  refine ⟨sameRows ▸ storable.rows, fun row member => ?_⟩
  obtain ⟨first, firstMember⟩ : ∃ first, first ∈ box.matrix :=
    List.exists_mem_of_length_pos (sameRows ▸ List.length_pos_of_mem member)
  have bound := storable.columns first firstMember
  rwa [rectangular.columns first firstMember, ← samePartyCount, ← sameOutputs,
    ← otherRectangular.columns row member] at bound

/-- Looking up a tuple in a table gives its number. -/
theorem prob_tabulated
    (shaped : (tabulated inputs outputs inputRange outputRange probability).Shaped)
    {input output : List Nat} (inputFits : Tuple.Fits inputRange inputs.length input)
    (outputFits : Tuple.Fits outputRange inputs.length output) :
    (tabulated inputs outputs inputRange outputRange probability).prob input output
      = .ok (probability input output) := by
  have balanced : outputs.length = inputs.length := shaped.balanced
  have row := Tuple.getElem?_walk_place inputFits
  have column := Tuple.getElem?_walk_place outputFits
  rw [prob, shaped.index_input inputFits]
  simp only [shaped.index_output outputFits]
  simp [tabulated, cell?, balanced, row, column]

/-- In a table the likelihood of a tuple is its number. -/
theorem likelihood_tabulated {probability : List Nat → List Nat → Rat}
    (shaped : (tabulated inputs outputs inputRange outputRange probability).Shaped)
    {input output : List Nat} (inputFits : Tuple.Fits inputRange inputs.length input)
    (outputFits : Tuple.Fits outputRange inputs.length output) :
    (tabulated inputs outputs inputRange outputRange probability).likelihood input output
      = probability input output := by
  rw [likelihood, prob_tabulated shaped inputFits outputFits]
  rfl

/-- The matrix of a shaped box is the table of its likelihoods. -/
theorem Shaped.matrix_eq {box : Box Rat} (shaped : box.Shaped) :
    box.matrix = (Tuple.walk box.inputRange box.partyCount).map fun input =>
      (Tuple.walk box.outputRange box.partyCount).map (box.likelihood input) := by
  have sameLength : box.matrix.length
      = (Tuple.walk box.inputRange box.partyCount).length := by
    rw [shaped.rows, Tuple.length_walk]
  apply List.ext_getElem (by rw [List.length_map, sameLength])
  intro row inMatrix inTable
  have inWalk : row < (Tuple.walk box.inputRange box.partyCount).length := sameLength ▸ inMatrix
  have inputFits := Tuple.mem_walk.mp (List.getElem_mem inWalk)
  have cells := shaped.columns _ (List.getElem_mem inMatrix)
  rw [List.getElem_map]
  apply List.ext_getElem (by rw [List.length_map, cells, Tuple.length_walk])
  intro column inRow inColumns
  rw [List.length_map] at inColumns
  have outputFits := Tuple.mem_walk.mp (List.getElem_mem inColumns)
  have found : box.prob (Tuple.walk box.inputRange box.partyCount)[row]
      (Tuple.walk box.outputRange box.partyCount)[column]
        = .ok (box.matrix[row])[column] := by
    simp [prob, shaped.index_input inputFits, shaped.index_output outputFits,
      Tuple.place_getElem_walk inWalk, Tuple.place_getElem_walk inColumns, cell?, inMatrix, inRow]
  rw [List.getElem_map, likelihood, found]
  rfl

end Nonlocal.Box
