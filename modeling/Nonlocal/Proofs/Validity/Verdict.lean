import Nonlocal.Proofs.Validity.Outcome

/-!
# The verdict of validation

Validation accepts exactly the boxes that meet the demands of all checks. Any other box
is refused by the first check whose demand it does not meet, with a report that is true
of the box. No check is left without an answer: the lookups that could fail are made in
boxes of the right shape only.
-/

namespace Nonlocal.Validity

variable {box : Box Rat} {tolerance : Rat}

/-- The checks of the matrix and of the parties demand the shape of a box. -/
theorem shaped_of_demands (storable : box.Storable)
    (rowCount : Demands box tolerance .rowCount) (rowLength : Demands box tolerance .rowLength)
    (partyBalance : Demands box tolerance .partyBalance) : box.Shaped := by
  have words : Word.greatestSigned < Word.limit := by decide
  obtain ⟨inputRanged, outputRanged, rows⟩ := rowCount
  obtain ⟨balanced, inhabited⟩ := partyBalance
  have columns : ∀ row ∈ box.matrix,
      row.length = Tuple.total box.outputRange box.partyCount := by
    intro row member
    rw [Box.partyCount, balanced]
    exact rowLength row member
  have nonempty : 0 < box.matrix.length := rows ▸ Nat.pow_pos inputRanged
  have first := List.getElem_mem nonempty
  exact {
    balanced := balanced.symm
    inhabited := inhabited
    inputRanged := inputRanged
    outputRanged := outputRanged
    rows := rows
    columns := columns
    rowWords := rows ▸ storable.rows.trans_lt words
    columnWords := columns _ first ▸ (storable.columns _ first).trans_lt words }

/-- Each check settles its demand, once those before it are met. -/
theorem runCheck_settles (nonnegative : 0 ≤ tolerance)
    (fewInputs : box.inputs.length < Tuple.lengthLimit)
    (fewOutputs : box.outputs.length < Tuple.lengthLimit) (storable : box.Storable)
    (check : Check) (earlier : ∀ other ∈ check.before, Demands box tolerance other) :
    Settles (runCheck check box tolerance) (Demands box tolerance check)
      fun stop => ∃ violation, stop = .refused violation
        ∧ Genuine box tolerance check violation := by
  have usable : ensureUsable tolerance = .ok () := by
    simp [ensureUsable, Scalar.isFinite, nonnegative]
  unfold runCheck
  rw [usable]
  cases check with
  | valueRange => exact checkValueRange_settles.ofExcept
  | rowCount => exact (checkRowCount_settles fewInputs).ofExcept
  | rowLength =>
    obtain ⟨-, outputRanged, -⟩ := earlier .rowCount (by decide)
    exact (checkRowLength_settles fewOutputs outputRanged).ofExcept
  | rowSum => exact checkRowSum_settles.ofExcept
  | partyBalance => exact checkPartyBalance_settles.ofExcept
  | variableNaming =>
    have shaped := shaped_of_demands storable (earlier .rowCount (by decide))
      (earlier .rowLength (by decide)) (earlier .partyBalance (by decide))
    have words := (shaped.inputRange_le storable).trans (by decide : _ ≤ Word.limit)
    refine (checkVariableNaming_settles words).ofExcept.imp (fun named => named) ?_
    rintro stop ⟨violation, rfl, name, issue, member, has, rfl⟩
    exact ⟨_, rfl, .naming member has⟩
  | nonSignalling =>
    have shaped := shaped_of_demands storable (earlier .rowCount (by decide))
      (earlier .rowLength (by decide)) (earlier .partyBalance (by decide))
    exact checkNonSignalling_settles shaped nonnegative

/-- Validation settles all demands: it stops at the first one that is not met. -/
theorem validate_settles (nonnegative : 0 ≤ tolerance)
    (fewInputs : box.inputs.length < Tuple.lengthLimit)
    (fewOutputs : box.outputs.length < Tuple.lengthLimit) (storable : box.Storable) :
    Settles (validate box tolerance) (∀ check, Demands box tolerance check)
      fun stop => ∃ check violation, stop = .refused violation
        ∧ (∀ earlier ∈ check.before, Demands box tolerance earlier)
        ∧ runCheck check box tolerance = .error stop
        ∧ Genuine box tolerance check violation := by
  refine (Settles.forM_inTurn fun before check after whole earlier =>
    (runCheck_settles nonnegative fewInputs fewOutputs storable check
      (by rwa [Check.before_eq whole])).traced).imp (fun all check => all check ?_) ?_
  · cases check <;> simp [Check.all]
  · rintro stop ⟨before, check, after, whole, earlier, failed, violation, rfl, isGenuine⟩
    exact ⟨check, violation, rfl, by rwa [Check.before_eq whole], failed, isGenuine⟩

/-- Validation accepts a box exactly if the tolerance is not negative, the parties are not too
many to be counted and all demands are met. -/
theorem validate_eq_ok_iff (storable : box.Storable) :
    validate box tolerance = .ok ()
      ↔ 0 ≤ tolerance ∧ box.inputs.length < Tuple.lengthLimit
        ∧ ∀ check, Demands box tolerance check := by
  constructor
  · intro valid
    obtain ⟨_, usable, rowCount⟩ :=
      (Attempt.bind_eq_ok_iff _ _ _).mp (runCheck_of_validate valid .rowCount)
    rw [Attempt.ofExcept_eq_ok_iff] at usable rowCount
    have nonnegative : 0 ≤ tolerance := by
      by_contra negative
      simp [ensureUsable, not_le.mp negative] at usable
    have fewInputs := few_of_checkRowCount rowCount
    have fewOutputs : box.outputs.length < Tuple.lengthLimit := by
      rwa [(shaped_of_validate valid).balanced]
    have settles := validate_settles nonnegative fewInputs fewOutputs storable
    exact ⟨nonnegative, fewInputs, settles.demanded_of_ok valid⟩
  · rintro ⟨nonnegative, fewInputs, met⟩
    have fewOutputs : box.outputs.length < Tuple.lengthLimit := by
      obtain ⟨balanced, -⟩ := met .partyBalance
      rwa [← balanced]
    apply (validate_settles nonnegative fewInputs fewOutputs storable).ok_of_not_genuine
    rintro stop ⟨check, violation, -, earlier, -, isGenuine⟩
    exact isGenuine.not_demands storable earlier (met check)

/-- A box is accepted exactly if it meets all demands. If it does not, validation refuses it
with the report of the first check whose demand it fails, and the report is true of the
box. -/
theorem validate_verdict (nonnegative : 0 ≤ tolerance)
    (fewInputs : box.inputs.length < 2 ^ 32) (fewOutputs : box.outputs.length < 2 ^ 32)
    (storable : box.Storable) :
    (validate box tolerance = .ok () ↔ ∀ check, Demands box tolerance check)
      ∧ ((¬ ∀ check, Demands box tolerance check) → ∃ check violation,
        (∀ earlier ∈ check.before, Demands box tolerance earlier)
          ∧ ¬ Demands box tolerance check
          ∧ runCheck check box tolerance = .error (.refused violation)
          ∧ validate box tolerance = .error (.refused violation)
          ∧ Genuine box tolerance check violation) := by
  rcases validate_settles nonnegative fewInputs fewOutputs storable with
    ⟨passed, met⟩ | ⟨_, refused, check, violation, rfl, earlier, failed, isGenuine⟩
  · exact ⟨iff_of_true passed met, fun unmet => (unmet met).elim⟩
  · have notMet := isGenuine.not_demands storable earlier
    refine ⟨iff_of_false ?_ fun met => notMet (met check), fun _ => ?_⟩
    · rw [refused]
      rintro ⟨⟩
    · exact ⟨check, violation, earlier, notMet, failed, refused, isGenuine⟩

/-- Two parties of which the second answers with the input of the first. -/
def leakingBox : Box Rat where
  inputs := ["x", "y"]
  outputs := ["a", "b"]
  inputRange := 2
  outputRange := 2
  matrix := [[1, 0, 0, 0], [1, 0, 0, 0], [0, 1, 0, 0], [0, 1, 0, 0]]

/-- The leaking box meets all demands but the last, and is refused with a true report of where
its first party signals. -/
theorem leakingBox_refused :
    (∀ earlier ∈ Check.nonSignalling.before, Demands leakingBox 0 earlier)
      ∧ ¬ Demands leakingBox 0 .nonSignalling
      ∧ validate leakingBox 0 = .error (.refused (.signalling 0 ⟨[0], [0], 0, 1, 1, 0⟩))
      ∧ Genuine leakingBox 0 .nonSignalling (.signalling 0 ⟨[0], [0], 0, 1, 1, 0⟩) := by
  have refused : validate leakingBox 0
      = .error (.refused (.signalling 0 ⟨[0], [0], 0, 1, 1, 0⟩)) := by decide +kernel
  have others : ∀ check, check ≠ .nonSignalling → runCheck check leakingBox 0 = .ok () := by
    intro check different
    cases check <;> first | exact (different rfl).elim | decide +kernel
  obtain ⟨accepts, reports⟩ :=
    @validate_verdict leakingBox 0 le_rfl (by decide) (by decide) (by decide)
  have unmet : ¬ ∀ check, Demands leakingBox 0 check := by
    rw [← accepts, refused]
    rintro ⟨⟩
  obtain ⟨check, violation, earlier, notMet, failed, reported, isGenuine⟩ := reports unmet
  obtain rfl : check = .nonSignalling := by
    by_contra different
    rw [others check different] at failed
    cases failed
  obtain rfl : _ = violation := Stop.refused.inj (Except.error.inj (refused.symm.trans reported))
  exact ⟨earlier, notMet, refused, isGenuine⟩

end Nonlocal.Validity
