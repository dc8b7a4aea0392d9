import Nonlocal.Proofs.Box.Lookup
import Nonlocal.Validity.Check

/-!
# What a valid box satisfies

A box is valid if every check passes. Passed checks are read here as statements about
the box, whatever its numbers are: its cells lie in the unit interval, and it has its
shape. The checks count rows and columns for different lists of names; that these are
equally long is checked last.
-/

namespace Nonlocal.Validity

section

variable {α : Type}

/-- The tuples of a side are counted, or the range is empty, or there are too many. -/
theorem dimension_cases (side : Side) (range parties : Nat) :
    (range = 0
        ∧ (dimension side range parties : Except (Violation α) Nat) = .error (.emptyRange side 0))
      ∨ (0 < range ∧ Tuple.total range parties < Word.limit
        ∧ (dimension side range parties : Except (Violation α) Nat)
          = .ok (Tuple.total range parties))
      ∨ (0 < range ∧ (Word.limit ≤ Tuple.total range parties ∨ Tuple.lengthLimit ≤ parties)
        ∧ (dimension side range parties : Except (Violation α) Nat)
          = .error (.tooManyTuples side range parties)) := by
  rcases Nat.eq_zero_or_pos range with rfl | positive
  · exact Or.inl ⟨rfl, rfl⟩
  · right
    rw [dimension, if_neg positive.ne']
    cases counted : Tuple.count? range parties with
    | some count =>
      obtain ⟨rfl, word⟩ := Tuple.count?_eq_some counted
      exact Or.inl ⟨positive, word, rfl⟩
    | none =>
      refine Or.inr ⟨positive, ?_, rfl⟩
      by_contra counts
      rw [not_or, Nat.not_le, Nat.not_le] at counts
      rw [Tuple.count?_of_lt counts.2 counts.1] at counted
      cases counted

/-- A counted side has values, and the count is the number of its tuples. -/
theorem dimension_eq_ok {side : Side} {range parties count : Nat}
    (counted : (dimension side range parties : Except (Violation α) Nat) = .ok count) :
    0 < range ∧ Tuple.total range parties < Word.limit ∧ count = Tuple.total range parties := by
  rcases dimension_cases (α := α) side range parties with
    ⟨-, same⟩ | ⟨positive, word, same⟩ | ⟨-, -, same⟩
  · cases same.symm.trans counted
  · exact ⟨positive, word, (Except.ok.inj (same.symm.trans counted)).symm⟩
  · cases same.symm.trans counted

/-- A side with values and not too many tuples is counted. -/
theorem dimension_of_lt {side : Side} {range parties : Nat} (positive : 0 < range)
    (short : parties < Tuple.lengthLimit) (word : Tuple.total range parties < Word.limit) :
    (dimension side range parties : Except (Violation α) Nat)
      = .ok (Tuple.total range parties) := by
  rw [dimension, if_neg positive.ne', Tuple.count?_of_lt short word]

/-- What the check of the number of rows establishes. -/
theorem rows_of_checkRowCount {box : Box α}
    (passed : (checkRowCount box : Except (Violation α) Unit) = .ok ()) :
    0 < box.outputRange ∧ 0 < box.inputRange
      ∧ Tuple.total box.inputRange box.inputs.length < Word.limit
      ∧ box.matrix.length = Tuple.total box.inputRange box.inputs.length := by
  obtain ⟨_, outputs, rest⟩ := (Attempt.bind_eq_ok_iff _ _ _).mp passed
  obtain ⟨expected, inputs, compared⟩ := (Attempt.bind_eq_ok_iff _ _ _).mp rest
  obtain ⟨outputRanged, -, -⟩ := dimension_eq_ok outputs
  obtain ⟨inputRanged, word, rfl⟩ := dimension_eq_ok inputs
  split at compared
  · next same => exact ⟨outputRanged, inputRanged, word, same⟩
  · cases compared

/-- The check of the number of rows passes for not too many inputs only. -/
theorem few_of_checkRowCount {box : Box α}
    (passed : (checkRowCount box : Except (Violation α) Unit) = .ok ()) :
    box.inputs.length < Tuple.lengthLimit := by
  obtain ⟨_, -, rest⟩ := (Attempt.bind_eq_ok_iff _ _ _).mp passed
  obtain ⟨expected, inputs, -⟩ := (Attempt.bind_eq_ok_iff _ _ _).mp rest
  unfold dimension at inputs
  split at inputs
  · cases inputs
  · split at inputs
    · next counted => exact Tuple.length_lt_of_count? counted
    · cases inputs

/-- What the check of the lengths of the rows establishes. -/
theorem columns_of_checkRowLength {box : Box α}
    (passed : (checkRowLength box : Except (Violation α) Unit) = .ok ()) :
    Tuple.total box.outputRange box.outputs.length < Word.limit
      ∧ ∀ row ∈ box.matrix, row.length = Tuple.total box.outputRange box.outputs.length := by
  obtain ⟨expected, outputs, compared⟩ := (Attempt.bind_eq_ok_iff _ _ _).mp passed
  obtain ⟨-, word, rfl⟩ := dimension_eq_ok outputs
  refine ⟨word, fun row member => ?_⟩
  obtain ⟨place, atRow⟩ := List.mem_iff_getElem?.mp member
  have ofRow := (Attempt.forM_eq_ok_iff _ _).mp compared (row, place)
    (List.mem_zipIdx_iff_getElem?.mpr atRow)
  simp only at ofRow
  split at ofRow
  · next same => exact same
  · cases ofRow

/-- What the check of the parties establishes. -/
theorem balanced_of_checkPartyBalance {box : Box α}
    (passed : (checkPartyBalance box : Except (Violation α) Unit) = .ok ()) :
    box.inputs.length = box.outputs.length ∧ 0 < box.inputs.length := by
  unfold checkPartyBalance at passed
  split at passed
  · cases passed
  · split at passed
    · cases passed
    · omega

section

variable {box : Box α} (shaped : box.Shaped)

include shaped

/-- A shaped box passes the check of the number of rows. -/
theorem checkRowCount_of_shaped (short : box.partyCount < Tuple.lengthLimit) :
    (checkRowCount box : Except (Violation α) Unit) = .ok () := by
  have outputs : (dimension .output box.outputRange 0 : Except (Violation α) Nat) = .ok 1 :=
    dimension_of_lt shaped.outputRanged (by decide) (by rw [Tuple.total_zero]; decide)
  exact (Attempt.bind_eq_ok_iff _ _ _).mpr ⟨1, outputs, (Attempt.bind_eq_ok_iff _ _ _).mpr
    ⟨_, dimension_of_lt shaped.inputRanged short shaped.rowWords, if_pos shaped.rows⟩⟩

/-- A shaped box passes the check of the lengths of the rows. -/
theorem checkRowLength_of_shaped (short : box.partyCount < Tuple.lengthLimit) :
    (checkRowLength box : Except (Violation α) Unit) = .ok () := by
  have outputs : (dimension .output box.outputRange box.outputs.length :
      Except (Violation α) Nat) = .ok (Tuple.total box.outputRange box.partyCount) := by
    rw [shaped.balanced]
    exact dimension_of_lt shaped.outputRanged short shaped.columnWords
  refine (Attempt.bind_eq_ok_iff _ _ _).mpr ⟨_, outputs, (Attempt.forM_eq_ok_iff _ _).mpr ?_⟩
  rintro ⟨cells, row⟩ member
  have stored := List.mem_zipIdx_iff_getElem?.mp member
  exact if_pos (shaped.columns cells (List.mem_of_getElem? stored))

/-- A shaped box passes the check of the parties. -/
theorem checkPartyBalance_of_shaped :
    (checkPartyBalance box : Except (Violation α) Unit) = .ok () := by
  have balanced : ¬ box.inputs.length ≠ box.outputs.length := not_not.mpr shaped.balanced.symm
  have inhabited : ¬ box.inputs.length = 0 := shaped.inhabited.ne'
  rw [checkPartyBalance, if_neg balanced, if_neg inhabited]

end

end

variable {α : Type} [Zero α] [One α] [Add α] [Sub α] [LT α] [DecidableLT α] [LE α]
  [DecidableLE α] [Scalar α] {box : Box α} {tolerance : α}

/-- In a valid box every check passes. -/
theorem runCheck_of_validate (valid : validate box tolerance = .ok ()) (check : Check) :
    runCheck check box tolerance = .ok () := by
  refine (Attempt.forM_eq_ok_iff _ _).mp valid check ?_
  cases check <;> simp [Check.all]

/-- Every cell of a valid box lies in the unit interval. -/
theorem cell_of_validate (valid : validate box tolerance = .ok ()) :
    ∀ row ∈ box.matrix, ∀ cell ∈ row, 0 ≤ cell ∧ cell ≤ 1 := by
  intro row rowMember cell cellMember
  obtain ⟨_, -, passed⟩ :=
    (Attempt.bind_eq_ok_iff _ _ _).mp (runCheck_of_validate valid .valueRange)
  rw [Attempt.ofExcept_eq_ok_iff, checkValueRange, Attempt.forM_eq_ok_iff] at passed
  obtain ⟨rowIndex, atRow⟩ := List.mem_iff_getElem?.mp rowMember
  obtain ⟨column, atColumn⟩ := List.mem_iff_getElem?.mp cellMember
  have rowPassed := passed (row, rowIndex) (List.mem_zipIdx_iff_getElem?.mpr atRow)
  have cellPassed := (Attempt.forM_eq_ok_iff _ _).mp rowPassed (cell, column)
    (List.mem_zipIdx_iff_getElem?.mpr atColumn)
  simpa [inUnitInterval] using cellPassed

/-- The checks of the matrix and of the parties establish the shape of a box. -/
theorem shaped_of_runCheck (rowCount : runCheck .rowCount box tolerance = .ok ())
    (rowLength : runCheck .rowLength box tolerance = .ok ())
    (partyBalance : runCheck .partyBalance box tolerance = .ok ()) : box.Shaped := by
  obtain ⟨_, -, rowsCounted⟩ := (Attempt.bind_eq_ok_iff _ _ _).mp rowCount
  obtain ⟨_, -, columnsCounted⟩ := (Attempt.bind_eq_ok_iff _ _ _).mp rowLength
  obtain ⟨_, -, partiesCounted⟩ := (Attempt.bind_eq_ok_iff _ _ _).mp partyBalance
  rw [Attempt.ofExcept_eq_ok_iff] at rowsCounted columnsCounted partiesCounted
  obtain ⟨outputRanged, inputRanged, rowWords, rows⟩ := rows_of_checkRowCount rowsCounted
  obtain ⟨columnWords, columns⟩ := columns_of_checkRowLength columnsCounted
  obtain ⟨balanced, inhabited⟩ := balanced_of_checkPartyBalance partiesCounted
  rw [← balanced] at columnWords columns
  exact {
    balanced := balanced.symm
    inhabited := inhabited
    inputRanged := inputRanged
    outputRanged := outputRanged
    rows := rows
    columns := columns
    rowWords := rowWords
    columnWords := columnWords }

/-- A valid box has its shape. -/
theorem shaped_of_validate (valid : validate box tolerance = .ok ()) : box.Shaped :=
  shaped_of_runCheck (runCheck_of_validate valid .rowCount)
    (runCheck_of_validate valid .rowLength) (runCheck_of_validate valid .partyBalance)

end Nonlocal.Validity
