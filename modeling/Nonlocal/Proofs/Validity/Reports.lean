import Nonlocal.Proofs.Validity.Outcome

/-!
# What can be reported

Validation ends with a report of the first check that does not pass, whatever the numbers of
the box are: nothing is assumed about their order or their sums. The places that a report
names are places of the box, a row of its matrix, one of its parties, or a declared name with
the issue that is reported. The last check looks cells up; it does so in boxes of the right
shape only, where no lookup fails.
-/

namespace Nonlocal.Validity

variable {α : Type} {box : Box α}

/-- Reports whose places are places of a box. No failed lookup is one of them, and nothing is
said of a tolerance. -/
inductive Reports (box : Box α) : Violation α → Prop where
  | cellValue {row column : Nat} {value : α} (within : row < box.matrix.length) :
      Reports box (.cellValue row column value)
  | emptyRange {side : Side} {range : Nat} : Reports box (.emptyRange side range)
  | tooManyTuples {side : Side} {range parties : Nat} :
      Reports box (.tooManyTuples side range parties)
  | rowCount (differ : box.matrix.length ≠ Tuple.total box.inputRange box.inputs.length) :
      Reports box (.rowCount (Tuple.total box.inputRange box.inputs.length) box.matrix.length)
  | rowLength {row expected actual : Nat} (within : row < box.matrix.length) :
      Reports box (.rowLength row expected actual)
  | rowSum {row : Nat} {total : α} (within : row < box.matrix.length) :
      Reports box (.rowSum row total)
  | unequalParties {inputs outputs : Nat} : Reports box (.unequalParties inputs outputs)
  | noParties : Reports box .noParties
  | naming {name : String} {issue : NamingIssue} (member : name ∈ box.declared)
      (has : box.HasIssue name issue) : Reports box (.naming name issue)
  | signalling {party : Nat} {signal : Signal α} (present : party < box.partyCount) :
      Reports box (.signalling party signal)

/-- A number of rows that is not right is reported with the right one. -/
theorem checkRowCount_reports : Settles (checkRowCount box) True (Reports box) := by
  rcases dimension_cases (α := α) .output box.outputRange 0 with
    ⟨-, ended⟩ | ⟨-, -, outputs⟩ | ⟨-, -, ended⟩
  · rw [checkRowCount, ended]
    exact .fail .emptyRange
  · rw [checkRowCount, outputs]
    rcases dimension_cases (α := α) .input box.inputRange box.inputs.length with
      ⟨-, ended⟩ | ⟨-, -, inputs⟩ | ⟨-, -, ended⟩
    · simp only [bind, Except.bind, ended]
      exact .fail .emptyRange
    · simp only [bind, Except.bind, inputs]
      split
      · exact .pass trivial
      · next differ => exact .fail (.rowCount differ)
    · simp only [bind, Except.bind, ended]
      exact .fail .tooManyTuples
  · rw [checkRowCount, ended]
    exact .fail .tooManyTuples

/-- A row of the wrong length is reported with its place. -/
theorem checkRowLength_reports : Settles (checkRowLength box) True (Reports box) := by
  rcases dimension_cases (α := α) .output box.outputRange box.outputs.length with
    ⟨-, ended⟩ | ⟨-, -, outputs⟩ | ⟨-, -, ended⟩
  · rw [checkRowLength, ended]
    exact .fail .emptyRange
  · rw [checkRowLength, outputs]
    refine Settles.forM_zipIdx_of_each fun row cells stored => ?_
    dsimp only
    split
    · exact .pass trivial
    · exact .fail (.rowLength (List.getElem?_eq_some_iff.mp stored).1)
  · rw [checkRowLength, ended]
    exact .fail .tooManyTuples

/-- So it is if the parties do not pair up. -/
theorem checkPartyBalance_reports : Settles (checkPartyBalance box) True (Reports box) := by
  unfold checkPartyBalance
  split
  · exact .fail .unequalParties
  · split
    · exact .fail .noParties
    · exact .pass trivial

/-- A name with an issue is reported as a declared name. -/
theorem checkVariableNaming_reports (words : box.inputRange ≤ Word.limit) :
    Settles (checkVariableNaming box) True (Reports box) := by
  refine (checkVariableNaming_settles words).imp (fun _ => trivial) ?_
  rintro violation ⟨name, issue, member, has, rfl⟩
  exact .naming member has

/-- A row with a cell outside the unit interval is reported with its place. -/
theorem checkValueRange_reports [Zero α] [One α] [LE α] [DecidableLE α] :
    Settles (checkValueRange box) True (Reports box) := by
  refine Settles.forM_zipIdx_of_each fun row cells stored => ?_
  refine Settles.forM_zipIdx_of_each fun column value _ => ?_
  dsimp only
  split
  · exact .pass trivial
  · exact .fail (.cellValue (List.getElem?_eq_some_iff.mp stored).1)

/-- A row with a wrong sum is reported with its place. -/
theorem checkRowSum_reports [One α] [Add α] [Sub α] [LT α] [DecidableLT α] [Scalar α]
    {tolerance : α} : Settles (checkRowSum box tolerance) True (Reports box) := by
  refine Settles.forM_zipIdx_of_each fun row cells stored => ?_
  dsimp only
  split
  · exact .fail (.rowSum (List.getElem?_eq_some_iff.mp stored).1)
  · exact .pass trivial

section

variable [Zero α] [Add α] (shaped : box.Shaped)

include shaped

/-- In a shaped box the marginal of the others is formed. -/
theorem exists_othersMarginal {party input : Nat} {otherInputs otherOutputs : List Nat}
    (present : party < box.partyCount) (inside : input < box.inputRange)
    (inputsFit : Tuple.Fits box.inputRange (box.partyCount - 1) otherInputs)
    (outputsFit : Tuple.Fits box.outputRange (box.partyCount - 1) otherOutputs) :
    ∃ marginal, othersMarginal box party otherInputs otherOutputs input = .ok marginal := by
  have whole : box.partyCount - 1 + 1 = box.partyCount := by omega
  have room : party ≤ box.partyCount - 1 := by omega
  refine Attempt.exists_bind (Tuple.insertAt_eq_ok (inputsFit.1 ▸ room) input) ?_
  rw [Attempt.foldValues_eq_foldlM, ← List.range_eq_range']
  apply Attempt.exists_foldlM
  intro output member total
  obtain ⟨row, -, value, -, found⟩ := shaped.exists_prob
    (whole ▸ inputsFit.insertIdx inside room)
    (whole ▸ outputsFit.insertIdx (List.mem_range.mp member) room)
  exact Attempt.exists_bind (Tuple.insertAt_eq_ok (outputsFit.1 ▸ room) output)
    (Attempt.exists_bind ((Attempt.mapRefusal_eq_ok_iff _ _ _).mpr
      ((Attempt.ofExcept_eq_ok_iff _ _).mpr found)) ⟨_, rfl⟩)

/-- Under one assignment of the others a party is reported, or nobody. -/
theorem checkAssignment_reports [Sub α] [LT α] [DecidableLT α] [Scalar α] (tolerance : α)
    {party : Nat} {otherInputs otherOutputs : List Nat} (present : party < box.partyCount)
    (inputsFit : Tuple.Fits box.inputRange (box.partyCount - 1) otherInputs)
    (outputsFit : Tuple.Fits box.outputRange (box.partyCount - 1) otherOutputs) :
    Settles (checkAssignment box tolerance party otherInputs otherOutputs) True
      fun stop => ∃ violation, stop = .refused violation ∧ Reports box violation := by
  obtain ⟨baseline, formed⟩ :=
    exists_othersMarginal shaped present shaped.inputRanged inputsFit outputsFit
  have compared (value : Nat) (_ : 1 ≤ value) (below : value < 1 + (box.inputRange - 1)) :
      Settles
        (do
          let marginal ← othersMarginal box party otherInputs otherOutputs value
          if tolerance < Scalar.abs (marginal - baseline) then
            Attempt.refuse (.signalling party
              ⟨otherInputs, otherOutputs, 0, baseline, value, marginal⟩)
          else pure ())
        True fun stop => ∃ violation, stop = .refused violation ∧ Reports box violation := by
    have inside : value < box.inputRange := by omega
    obtain ⟨marginal, found⟩ := exists_othersMarginal shaped present inside inputsFit outputsFit
    rw [found]
    simp only [bind, Except.bind]
    split
    · exact .fail ⟨_, rfl, .signalling present⟩
    · exact .pass trivial
  rw [checkAssignment, formed]
  refine (Settles.foldValues compared).imp (fun _ => trivial) ?_
  rintro stop ⟨_, -, -, reports⟩
  exact reports

/-- A party that signals is reported, and no lookup fails. -/
theorem checkNonSignalling_reports [Sub α] [LT α] [DecidableLT α] [Scalar α] (tolerance : α) :
    Settles (checkNonSignalling box tolerance) True
      fun stop => ∃ violation, stop = .refused violation ∧ Reports box violation := by
  have ofParty (party : Nat) (_ : 0 ≤ party) (present : party < 0 + box.partyCount) :
      Settles
        (do
          let others ← Word.sub box.partyCount 1
          Tuple.foldTuples box.inputRange others
            (fun _ otherInputs =>
              Tuple.foldTuples box.outputRange others
                (fun _ otherOutputs =>
                  checkAssignment box tolerance party otherInputs otherOutputs)
                ())
            ())
        True fun stop => ∃ violation, stop = .refused violation ∧ Reports box violation := by
    rw [Nat.zero_add] at present
    rw [shaped.sub_partyCount]
    refine (Settles.foldTuples fun otherInputs inputsFit =>
      Settles.foldTuples fun otherOutputs outputsFit =>
        checkAssignment_reports shaped tolerance present inputsFit outputsFit).imp
      (fun _ => trivial) ?_
    rintro stop ⟨_, _, _, _, reports⟩
    exact reports
  refine (Settles.foldValues ofParty).imp (fun _ => trivial) ?_
  rintro stop ⟨_, -, -, reports⟩
  exact reports

end

variable [Zero α] [One α] [Add α] [Sub α] [LT α] [DecidableLT α] [LE α] [DecidableLE α]
  [Scalar α] {tolerance : α}

/-- Each check makes such reports, once those before it have passed. -/
theorem runCheck_reports (usable : ensureUsable tolerance = .ok ()) (check : Check)
    (earlier : ∀ other ∈ check.before, runCheck other box tolerance = .ok ()) :
    Settles (runCheck check box tolerance) True
      fun stop => ∃ violation, stop = .refused violation ∧ Reports box violation := by
  unfold runCheck
  rw [usable]
  cases check with
  | valueRange => exact checkValueRange_reports.ofExcept
  | rowCount => exact checkRowCount_reports.ofExcept
  | rowLength => exact checkRowLength_reports.ofExcept
  | rowSum => exact checkRowSum_reports.ofExcept
  | partyBalance => exact checkPartyBalance_reports.ofExcept
  | variableNaming =>
    have shaped := shaped_of_runCheck (earlier .rowCount (by decide))
      (earlier .rowLength (by decide)) (earlier .partyBalance (by decide))
    have words := (shaped.range_le_total box.inputRange).trans shaped.rowWords.le
    exact (checkVariableNaming_reports words).ofExcept
  | nonSignalling =>
    have shaped := shaped_of_runCheck (earlier .rowCount (by decide))
      (earlier .rowLength (by decide)) (earlier .partyBalance (by decide))
    exact checkNonSignalling_reports shaped tolerance

/-- A validation that does not accept a box ends with a report about places of the box. -/
theorem reports_of_validate (usable : ensureUsable tolerance = .ok ())
    {stop : Stop (Violation α)} (failed : validate box tolerance = .error stop) :
    ∃ violation, stop = .refused violation ∧ Reports box violation := by
  have settles : Settles (validate box tolerance)
      (∀ check ∈ Check.all, runCheck check box tolerance = .ok ())
      fun stop => ∃ before check after, Check.all = before ++ check :: after
        ∧ (∀ earlier ∈ before, runCheck earlier box tolerance = .ok ())
        ∧ ∃ violation, stop = .refused violation ∧ Reports box violation := by
    refine Settles.forM_inTurn fun before check after whole earlier => ?_
    have reports := runCheck_reports usable check (by rwa [Check.before_eq whole])
    exact (reports.and_of_ok fun passed => passed).imp (fun met => met.2) fun _ told => told
  rcases settles with ⟨passed, -⟩ | ⟨_, stopped, _, _, _, -, -, reports⟩
  · cases passed.symm.trans failed
  · obtain rfl := Except.error.inj (stopped.symm.trans failed)
    exact reports

end Nonlocal.Validity
