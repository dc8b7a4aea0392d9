import Nonlocal.Proofs.Disclosure.Preconditions
import Nonlocal.Proofs.Tuple.Count
import Nonlocal.Proofs.Validity.Idle

/-!
# Boxes with too many tuples

Rows and columns are numbered by words, so the tuples of each side are counted before the
matrix is compared with their number. Validation does so in two of its checks, and only these
report too many tuples. Making a model does so after it has refused boxes of many parties, and
few parties are counted exactly.

Validation knows no bound on the number of parties. Where a range has a single value it
reports too many tuples as soon as the parties are as many as the lengths that are counted,
although there is a single tuple then, and the box may have its row or column.
-/

namespace Nonlocal

namespace Check

/-- The check that counts the tuples of a side. -/
def counting : Side → Check
  | .input => .rowCount
  | .output => .rowLength

end Check

namespace Validity

section

variable {α : Type} {box : Box α} {side : Side} {range parties : Nat} {violation : Violation α}

/-- Too many tuples are reported exactly of a side with values whose tuples are not counted. -/
theorem dimension_eq_tooManyTuples_iff {asked : Side} {values names : Nat} :
    (dimension asked values names : Except (Violation α) Nat)
        = .error (.tooManyTuples side range parties)
      ↔ 0 < values ∧ side = asked ∧ range = values ∧ parties = names
        ∧ Tuple.count? values names = none := by
  unfold dimension
  rcases Nat.eq_zero_or_pos values with rfl | positive
  · simp
  · rw [if_neg positive.ne']
    cases Tuple.count? values names with
    | some count => simp
    | none => simp [positive, eq_comm]

/-- The check of the number of rows reports too many tuples exactly if both sides have values and
the input tuples are not counted. -/
theorem checkRowCount_eq_tooManyTuples_iff :
    (checkRowCount box : Except (Violation α) Unit) = .error (.tooManyTuples side range parties)
      ↔ 0 < box.outputRange ∧ 0 < box.inputRange ∧ side = .input ∧ range = box.inputRange
        ∧ parties = box.inputs.length ∧ Tuple.count? box.inputRange box.inputs.length = none := by
  rw [checkRowCount, Attempt.bind_eq_error_iff]
  simp only [Attempt.bind_eq_error_iff, dimension_eq_tooManyTuples_iff]
  constructor
  · rintro (⟨-, -, -, -, uncounted⟩ | ⟨_, outputs, reported | ⟨_, -, compared⟩⟩)
    · rw [Tuple.count?_zero] at uncounted
      cases uncounted
    · exact ⟨(dimension_eq_ok outputs).1, reported⟩
    · split at compared <;> cases compared
  · rintro ⟨outputRanged, reported⟩
    have outputs : (dimension .output box.outputRange 0 : Except (Violation α) Nat) = .ok 1 :=
      dimension_of_lt outputRanged (by decide) (by rw [Tuple.total_zero]; decide)
    exact .inr ⟨1, outputs, .inl reported⟩

/-- The check of the lengths of the rows reports too many tuples exactly if the outputs have values
and the output tuples are not counted. -/
theorem checkRowLength_eq_tooManyTuples_iff :
    (checkRowLength box : Except (Violation α) Unit) = .error (.tooManyTuples side range parties)
      ↔ 0 < box.outputRange ∧ side = .output ∧ range = box.outputRange
        ∧ parties = box.outputs.length
        ∧ Tuple.count? box.outputRange box.outputs.length = none := by
  rw [checkRowLength, Attempt.bind_eq_error_iff, dimension_eq_tooManyTuples_iff]
  constructor
  · rintro (reported | ⟨_, -, compared⟩)
    · exact reported
    · obtain ⟨_, _, _, -, -, ofRow⟩ := (Attempt.forM_eq_error_iff _ _ _).mp compared
      dsimp only at ofRow
      split at ofRow <;> cases ofRow
  · exact .inl

/-- A tolerance that cannot be used is reported as such. -/
theorem unusable_of_ensureUsable [Zero α] [LT α] [DecidableLT α] [Scalar α] {tolerance : α}
    (failed : ensureUsable tolerance = .error violation) :
    violation = .unusableTolerance tolerance := by
  unfold ensureUsable at failed
  split at failed
  · exact (Except.error.inj failed).symm
  · cases failed

/-- The check of the cells reports a cell. -/
theorem cellValue_of_checkValueRange [Zero α] [One α] [LE α] [DecidableLE α]
    (failed : checkValueRange box = .error violation) :
    ∃ row column value, violation = .cellValue row column value := by
  obtain ⟨_, _, _, -, -, inRow⟩ := (Attempt.forM_eq_error_iff _ _ _).mp failed
  obtain ⟨_, _, _, -, -, atCell⟩ := (Attempt.forM_eq_error_iff _ _ _).mp inRow
  dsimp only at atCell
  split at atCell
  · cases atCell
  · exact ⟨_, _, _, (Except.error.inj atCell).symm⟩

/-- The check of the sums reports a sum. -/
theorem rowSum_of_checkRowSum [One α] [Add α] [Sub α] [LT α] [DecidableLT α] [Scalar α]
    {tolerance : α} (failed : checkRowSum box tolerance = .error violation) :
    ∃ row total, violation = .rowSum row total := by
  obtain ⟨_, _, _, -, -, ofRow⟩ := (Attempt.forM_eq_error_iff _ _ _).mp failed
  dsimp only at ofRow
  split at ofRow
  · exact ⟨_, _, (Except.error.inj ofRow).symm⟩
  · cases ofRow

/-- The check of the parties reports their numbers. -/
theorem parties_of_checkPartyBalance
    (failed : (checkPartyBalance box : Except (Violation α) Unit) = .error violation) :
    violation = .unequalParties box.inputs.length box.outputs.length ∨ violation = .noParties := by
  unfold checkPartyBalance at failed
  split at failed
  · exact .inl (Except.error.inj failed).symm
  split at failed
  · exact .inr (Except.error.inj failed).symm
  · cases failed

/-- The check of the names reports a name. -/
theorem naming_of_checkVariableNaming
    (failed : (checkVariableNaming box : Except (Violation α) Unit) = .error violation) :
    ∃ name issue, violation = .naming name issue := by
  rcases (Attempt.bind_eq_error_iff _ _ _).mp failed with own | ⟨_, -, compared⟩
  · rcases checkDeclared_settles (α := α) (List.nil_append box.declared) with
      ⟨passed, -⟩ | ⟨_, reported, name, issue, -, -, rfl⟩
    · cases passed.symm.trans own
    · exact ⟨name, issue, Except.error.inj (own.symm.trans reported)⟩
  · split at compared
    · exact ⟨_, _, (Except.error.inj compared).symm⟩
    · cases compared

/-- A marginal of the others is refused for a failed lookup. -/
theorem lookup_of_othersMarginal [Zero α] [Add α] {party input : Nat}
    {otherInputs otherOutputs : List Nat}
    (refused : othersMarginal box party otherInputs otherOutputs input
      = .error (.refused violation)) :
    ∃ error, violation = .lookup error := by
  have inserting {digits : List Nat} {position value : Nat} :
      (Tuple.insertAt digits position value : Attempt (Violation α) (List Nat))
        ≠ .error (.refused violation) := by
    unfold Tuple.insertAt
    split <;> simp [Attempt.fail]
  rw [othersMarginal] at refused
  simp only [Attempt.foldValues_eq_foldlM, Attempt.bind_eq_error_iff] at refused
  rcases refused with inserted | ⟨_, -, summed⟩
  · exact (inserting inserted).elim
  obtain ⟨_, -, _, stepped⟩ := Attempt.exists_step_of_foldlM summed
  simp only [Attempt.bind_eq_error_iff] at stepped
  rcases stepped with inserted | ⟨_, -, looked | ⟨_, -, added⟩⟩
  · exact (inserting inserted).elim
  · obtain ⟨error, -, rfl⟩ := Attempt.exists_refused_of_mapRefusal looked
    exact ⟨error, rfl⟩
  · cases added

/-- The last check reports a party that signals or a failed lookup. -/
theorem signalling_of_checkNonSignalling [Zero α] [Add α] [Sub α] [LT α] [DecidableLT α] [Scalar α]
    {tolerance : α}
    (refused : checkNonSignalling box tolerance = .error (.refused violation)) :
    (∃ party signal, violation = .signalling party signal)
      ∨ ∃ error, violation = .lookup error := by
  -- inwards from the party over both tuples of the others to the input that is compared
  rw [checkNonSignalling, Attempt.foldValues_eq_foldlM] at refused
  obtain ⟨party, -, _, ofParty⟩ := Attempt.exists_step_of_foldlM refused
  simp only [Attempt.bind_eq_error_iff, Tuple.foldTuples_eq_foldlM] at ofParty
  rcases ofParty with subtracted | ⟨_, -, walked⟩
  · unfold Word.sub at subtracted
    split at subtracted <;> cases subtracted
  obtain ⟨_, -, _, ofInputs⟩ := Attempt.exists_step_of_foldlM walked
  obtain ⟨_, -, _, ofOutputs⟩ := Attempt.exists_step_of_foldlM ofInputs
  simp only [checkAssignment, Attempt.bind_eq_error_iff, Attempt.foldValues_eq_foldlM] at ofOutputs
  rcases ofOutputs with baseline | ⟨_, -, compared⟩
  · exact .inr (lookup_of_othersMarginal baseline)
  obtain ⟨_, -, _, ofInput⟩ := Attempt.exists_step_of_foldlM compared
  rcases (Attempt.bind_eq_error_iff _ _ _).mp ofInput with marginal | ⟨_, -, far⟩
  · exact .inr (lookup_of_othersMarginal marginal)
  · split at far
    · exact .inl ⟨_, _, (Stop.refused.inj (Except.error.inj far)).symm⟩
    · cases far

end

variable {α : Type} [Zero α] [One α] [Add α] [Sub α] [LT α] [DecidableLT α] [LE α]
  [DecidableLE α] [Scalar α]

section

variable {box : Box α} {tolerance : α} {check : Check} {side : Side} {range parties : Nat}

/-- Too many tuples are reported by the check that counts the tuples of the side, of a side with
values whose tuples are not counted. The check of the rows looks at both ranges first. -/
theorem of_runCheck_tooManyTuples (failed : runCheck check box tolerance
      = .error (.refused (.tooManyTuples side range parties))) :
    check = .counting side ∧ (side = .input → 0 < box.outputRange) ∧ 0 < box.range side
      ∧ range = box.range side ∧ parties = (box.names side).length
      ∧ Tuple.count? range parties = none := by
  unfold runCheck at failed
  rcases (Attempt.bind_eq_error_iff _ _ _).mp failed with unusable | ⟨_, -, own⟩
  · cases unusable_of_ensureUsable ((Attempt.ofExcept_eq_refused_iff _ _).mp unusable)
  cases check with
  | valueRange =>
    rw [Attempt.ofExcept_eq_refused_iff] at own
    obtain ⟨_, _, _, same⟩ := cellValue_of_checkValueRange own
    cases same
  | rowCount =>
    rw [Attempt.ofExcept_eq_refused_iff, checkRowCount_eq_tooManyTuples_iff] at own
    obtain ⟨outputRanged, inputRanged, rfl, rfl, rfl, uncounted⟩ := own
    exact ⟨rfl, fun _ => outputRanged, inputRanged, rfl, rfl, uncounted⟩
  | rowLength =>
    rw [Attempt.ofExcept_eq_refused_iff, checkRowLength_eq_tooManyTuples_iff] at own
    obtain ⟨outputRanged, rfl, rfl, rfl, uncounted⟩ := own
    exact ⟨rfl, nofun, outputRanged, rfl, rfl, uncounted⟩
  | rowSum =>
    rw [Attempt.ofExcept_eq_refused_iff] at own
    obtain ⟨_, _, same⟩ := rowSum_of_checkRowSum own
    cases same
  | partyBalance =>
    rw [Attempt.ofExcept_eq_refused_iff] at own
    rcases parties_of_checkPartyBalance own with same | same <;> cases same
  | variableNaming =>
    rw [Attempt.ofExcept_eq_refused_iff] at own
    obtain ⟨_, _, same⟩ := naming_of_checkVariableNaming own
    cases same
  | nonSignalling =>
    rcases signalling_of_checkNonSignalling own with ⟨_, _, same⟩ | ⟨_, same⟩ <;> cases same

/-- The check that counts the tuples of a side reports too many of them if the tolerance can be
used, both sides have values and the tuples are not counted. -/
theorem runCheck_counting (usable : ensureUsable tolerance = .ok ())
    (inputRanged : 0 < box.inputRange) (outputRanged : 0 < box.outputRange)
    (uncounted : Tuple.count? (box.range side) (box.names side).length = none) :
    runCheck (.counting side) box tolerance
      = .error (.refused (.tooManyTuples side (box.range side) (box.names side).length)) := by
  refine (Attempt.bind_eq_error_iff _ _ _).mpr
    (.inr ⟨(), (Attempt.ofExcept_eq_ok_iff _ _).mpr usable, ?_⟩)
  cases side with
  | input =>
    exact (Attempt.ofExcept_eq_refused_iff _ _).mpr (checkRowCount_eq_tooManyTuples_iff.mpr
      ⟨outputRanged, inputRanged, rfl, rfl, rfl, uncounted⟩)
  | output =>
    exact (Attempt.ofExcept_eq_refused_iff _ _).mpr (checkRowLength_eq_tooManyTuples_iff.mpr
      ⟨outputRanged, rfl, rfl, rfl, uncounted⟩)

/-- Validation ends with a report of too many tuples of a side exactly if the checks before the one
that counts them pass, both sides have values and the tuples are not counted. -/
theorem validate_eq_tooManyTuples_iff :
    validate box tolerance = .error (.refused (.tooManyTuples side range parties))
      ↔ (∀ earlier ∈ (Check.counting side).before, runCheck earlier box tolerance = .ok ())
        ∧ 0 < box.inputRange ∧ 0 < box.outputRange
        ∧ range = box.range side ∧ parties = (box.names side).length
        ∧ Tuple.count? range parties = none := by
  rw [validate, Attempt.forM_eq_error_iff]
  constructor
  · rintro ⟨before, check, after, whole, earlier, failed⟩
    obtain ⟨rfl, others, ranged, sameRange, sameParties, uncounted⟩ :=
      of_runCheck_tooManyTuples failed
    rw [← Check.before_eq whole] at earlier
    have ranges : 0 < box.inputRange ∧ 0 < box.outputRange := by
      cases side with
      | input => exact ⟨ranged, others rfl⟩
      | output =>
        obtain ⟨_, -, rows⟩ := (Attempt.bind_eq_ok_iff _ _ _).mp (earlier .rowCount (by decide))
        obtain ⟨outputRanged, inputRanged, -⟩ :=
          rows_of_checkRowCount ((Attempt.ofExcept_eq_ok_iff _ _).mp rows)
        exact ⟨inputRanged, outputRanged⟩
    exact ⟨earlier, ranges.1, ranges.2, sameRange, sameParties, uncounted⟩
  · rintro ⟨earlier, inputRanged, outputRanged, rfl, rfl, uncounted⟩
    obtain ⟨_, usable, -⟩ := (Attempt.bind_eq_ok_iff _ _ _).mp
      (earlier .valueRange (by cases side <;> decide))
    obtain ⟨after, whole⟩ :
        ∃ after, Check.all = (Check.counting side).before ++ Check.counting side :: after := by
      cases side <;> exact ⟨_, rfl⟩
    exact ⟨_, _, after, whole, earlier, runCheck_counting
      ((Attempt.ofExcept_eq_ok_iff _ _).mp usable) inputRanged outputRanged uncounted⟩

end

end Validity

/-- Parties without a choice are refused for too many tuples if they are as many as the lengths that
are counted. -/
theorem idleBox.refused {parties : Nat} (long : Tuple.lengthLimit ≤ parties) :
    Validity.validate (idleBox parties) Validity.defaultTolerance
      = .error (.refused (.tooManyTuples .input 1 parties)) := by
  have named : parties = ((idleBox parties).names .input).length := by
    simp [Box.names, idleBox]
  refine Validity.validate_eq_tooManyTuples_iff.mpr
    ⟨?_, Nat.one_pos, Nat.one_pos, rfl, named,
      Tuple.count?_eq_none_iff.mpr (.inr ⟨Nat.le_refl 1, long⟩)⟩
  intro earlier member
  obtain rfl : earlier = .valueRange := by
    simpa [Check.before, Check.all, Check.counting] using member
  refine (Attempt.bind_eq_ok_iff _ _ _).mpr ⟨(), ?_, ?_⟩
  · exact (Attempt.ofExcept_eq_ok_iff _ _).mpr Validity.ensureUsable_default
  · exact (Attempt.ofExcept_eq_ok_iff _ _).mpr (idleBox.cells parties)

section

variable {α : Type} [Zero α] [One α] [Add α] [Sub α] [Div α] [BEq α] [LT α] [DecidableLT α]
  [LE α] [DecidableLE α] [Scalar α]

/-- Counting detects overflow exactly, and agrees with the walk, in every radix above 1 and for
every length below 2³². In radix 0 and 1 no longer tuples are counted, although there is one of
them at most.

Validation reports too many tuples of a side, once the checks before have passed, exactly if
both sides have values and the index space does not fit a word, or else the range has one
value and the parties are at least 2³². Making a model compares few parties only, where counting
is exact: a matrix is refused exactly if an index space does not fit a word or the matrix has
not the size that the ranges declare. -/
theorem overflow_detected :
    (∀ radix length, Tuple.Counted radix length ↔ 1 < radix ∨ length < 2 ^ 32)
      ∧ (∀ radix length, Tuple.count? radix length = none
        ↔ 2 ^ 64 ≤ radix ^ length ∨ radix ≤ 1 ∧ 2 ^ 32 ≤ length)
      ∧ (∀ (box : Box α) (tolerance : α) (side : Side) (range parties : Nat),
        Validity.validate box tolerance = .error (.refused (.tooManyTuples side range parties))
          ↔ (∀ earlier ∈ (Check.counting side).before,
                Validity.runCheck earlier box tolerance = .ok ())
            ∧ 1 ≤ box.inputRange ∧ 1 ≤ box.outputRange
            ∧ range = box.range side ∧ parties = (box.names side).length
            ∧ (2 ^ 64 ≤ range ^ parties ∨ range = 1 ∧ 2 ^ 32 ≤ parties))
      ∧ ∀ box : Box α, Disclosure.model box = Attempt.refuse (.precondition .shaped)
          ↔ (box.outputs.length = box.inputs.length ∧ 1 ≤ box.inputs.length
              ∧ box.inputs.length ≤ 63 ∧ 1 ≤ box.inputRange ∧ 1 ≤ box.outputRange)
            ∧ ¬ (box.inputRange ^ box.inputs.length < 2 ^ 64
              ∧ box.outputRange ^ box.inputs.length < 2 ^ 64
              ∧ box.matrix.length = box.inputRange ^ box.inputs.length
              ∧ ∀ row ∈ box.matrix, row.length = box.outputRange ^ box.inputs.length) := by
  refine ⟨fun _ _ => Tuple.counted_iff, fun _ _ => Tuple.count?_eq_none_iff, ?_, fun box => ?_⟩
  · intro box tolerance side range parties
    rw [Validity.validate_eq_tooManyTuples_iff]
    refine and_congr_right fun _ => and_congr_right fun inputRanged => and_congr_right
      fun outputRanged => and_congr_right fun same => and_congr_right fun _ => ?_
    have ranged : 0 < range := by
      cases side with
      | input => exact same ▸ inputRanged
      | output => exact same ▸ outputRanged
    exact Tuple.count?_eq_none_iff_of_pos ranged
  · rw [Disclosure.model_eq_refuse_iff]
    exact Disclosure.lacking?_eq_shaped_iff

end

/-- For 2³² parties with one value each there is a single tuple, and the box of these parties has
its shape. The tuple is not counted, and the box is refused for too many of them. -/
theorem single_tuple_uncounted :
    1 ^ 2 ^ 32 ≤ 2 ^ 64 - 1 ∧ (Tuple.walk 1 (2 ^ 32)).length = 1
      ∧ Tuple.count? 1 (2 ^ 32) = none ∧ ¬ Tuple.Counted 1 (2 ^ 32)
      ∧ (idleBox (2 ^ 32)).Shaped
      ∧ Validity.validate (idleBox (2 ^ 32)) Validity.defaultTolerance
          = .error (.refused (.tooManyTuples .input 1 (2 ^ 32))) := by
  have long : Tuple.lengthLimit ≤ 2 ^ 32 := by decide
  have single (length : Nat) : (Tuple.walk 1 length).length = 1 :=
    (Tuple.length_walk 1 length).trans (Nat.one_pow length)
  have uncounted : Tuple.count? 1 (2 ^ 32) = none :=
    Tuple.count?_eq_none_iff.mpr (.inr ⟨Nat.le_refl 1, long⟩)
  refine ⟨(Nat.one_pow _).trans_le (by decide), single _, uncounted, ?_,
    idleBox.shaped (by decide), idleBox.refused long⟩
  rw [Tuple.counted_iff, not_or]
  exact ⟨Nat.lt_irrefl 1, long.not_gt⟩

end Nonlocal
