import Nonlocal.Proofs.Box.Answered
import Nonlocal.Proofs.Validity.Demands
import Nonlocal.Proofs.Validity.Settling

/-!
# What each check settles

Each check settles its demand: it passes only if the demand is met, and what it reports
otherwise is true of the box. The later checks rely on what the earlier ones have
established. Row lengths are compared with a number of tuples that exists only for ranges
with values; the lookups of the last check succeed only in a box that has its shape.
-/

namespace Nonlocal.Validity

section

variable {α : Type} {box : Box α} {before : List String} {name : String}

/-- A name without an issue of its own is an identifier and no reserved word. -/
theorem of_namingIssue?_eq_none (clean : namingIssue? before name = none) :
    Identifier.WellFormed name ∧ name ∉ Identifier.reservedWords := by
  unfold namingIssue? at clean
  split at clean
  · cases clean
  next wellFormed =>
  split at clean
  · cases clean
  next unreserved =>
  exact ⟨(Identifier.isIdentifier_iff name).mp (by simpa using wellFormed),
    by simpa [Identifier.isReserved] using unreserved⟩

/-- An issue that is found with a name is one that it has. -/
theorem hasIssue_of_namingIssue? {issue : NamingIssue} {rest : List String}
    (found : namingIssue? before name = some issue)
    (whole : before ++ name :: rest = box.declared) : box.HasIssue name issue := by
  unfold namingIssue? at found
  split at found
  · next malformed =>
    obtain rfl := Option.some.inj found
    rw [Box.HasIssue, ← Identifier.isIdentifier_iff]
    simpa using malformed
  split at found
  · next reserved =>
    obtain rfl := Option.some.inj found
    simpa [Box.HasIssue, Identifier.isReserved] using reserved
  split at found
  · next again =>
    obtain rfl := Option.some.inj found
    have earlier : 0 < before.count name := List.count_pos_iff.mpr (by simpa using again)
    rw [Box.HasIssue, ← whole, List.count_append, List.count_cons_self]
    omega
  · cases found

/-- The first name with an issue of its own is reported with that issue. -/
theorem checkDeclared_settles {names : List String} (whole : before ++ names = box.declared) :
    Settles (checkDeclared before names : Except (Violation α) Unit)
      (∀ name ∈ names, Identifier.WellFormed name ∧ name ∉ Identifier.reservedWords)
      fun violation => ∃ name issue, name ∈ box.declared ∧ box.HasIssue name issue
        ∧ violation = .naming name issue := by
  induction names generalizing before with
  | nil => exact .pass (by simp)
  | cons name rest inductionHypothesis =>
    rw [checkDeclared]
    split
    · next issue found =>
      exact .fail ⟨name, issue, whole ▸ by simp, hasIssue_of_namingIssue? found whole, rfl⟩
    · next clean =>
      exact (inductionHypothesis (by simpa using whole)).imp
        (fun later => List.forall_mem_cons.mpr ⟨of_namingIssue?_eq_none clean, later⟩)
        fun _ isGenuine => isGenuine

/-- The names are variables of a model, or one with an issue is reported. -/
theorem checkVariableNaming_settles (words : box.inputRange ≤ Word.limit) :
    Settles (checkVariableNaming box) box.Named
      fun violation => ∃ name issue, name ∈ box.declared ∧ box.HasIssue name issue
        ∧ violation = .naming name issue := by
  have own : Settles (checkDeclared [] box.declared : Except (Violation α) Unit) _ _ :=
    (checkDeclared_settles (List.nil_append box.declared)).and_of_ok
      fun passed => (nodup_of_checkDeclared passed).1
  have compared : Settles (checkVariableNaming box) (((∀ name ∈ box.declared,
        Identifier.WellFormed name ∧ name ∉ Identifier.reservedWords) ∧ box.declared.Nodup)
      ∧ ∀ name ∈ box.declared, ¬ Identifier.Generated name box.inputs box.inputRange)
      fun violation => ∃ name issue, name ∈ box.declared ∧ box.HasIssue name issue
        ∧ violation = .naming name issue := by
    refine own.andThen fun _ => ?_
    split
    · next name found =>
      have generated : Identifier.Generated name box.inputs box.inputRange :=
        (Identifier.isGenerated_iff words).mp (by simpa using List.find?_some found)
      exact .fail ⟨name, .generatedName, List.mem_of_find?_eq_some found, generated, rfl⟩
    · next unclaimed =>
      refine .pass fun name member generated => ?_
      exact List.find?_eq_none.mp unclaimed name member
        ((Identifier.isGenerated_iff words).mpr generated)
  refine compared.imp ?_ fun _ isGenuine => isGenuine
  rintro ⟨⟨usable, once⟩, ungenerated⟩
  exact {
    wellFormed := fun name member => (usable name member).1
    unreserved := fun name member => (usable name member).2
    once := once
    ungenerated := ungenerated }

/-- The naming check passes exactly for names that can be the variables of a model. -/
theorem checkVariableNaming_eq_ok_iff (words : box.inputRange ≤ Word.limit) :
    (checkVariableNaming box : Except (Violation α) Unit) = .ok () ↔ box.Named := by
  have settles := checkVariableNaming_settles words
  refine ⟨settles.demanded_of_ok, fun named => settles.ok_of_not_genuine ?_⟩
  rintro violation ⟨name, issue, member, has, rfl⟩
  exact has.not_named member named

end

variable {box : Box Rat} {tolerance : Rat}

/-- The magnitude of an exact number is its absolute value. -/
theorem abs_eq (value : Rat) : (Scalar.abs value : Rat) = |value| := by
  simp only [Scalar.abs]
  split
  · next negative => exact (abs_of_neg negative).symm
  · next nonnegative => exact (abs_of_nonneg (not_lt.mp nonnegative)).symm

/-- The row total of exact numbers is their sum. -/
theorem rowTotal_eq_sum (numbers : List Rat) : rowTotal numbers = numbers.sum := by
  rw [List.sum_eq_foldl]
  rfl

/-- Every cell lies in the unit interval, or one that does not is reported. -/
theorem checkValueRange_settles :
    Settles (checkValueRange box) (Demands box tolerance .valueRange)
      (Genuine box tolerance .valueRange) := by
  have ofRow (row : Nat) (cells : List Rat) : Settles
      (cells.zipIdx.forM fun (value, column) =>
        if inUnitInterval value then .ok () else .error (Violation.cellValue row column value))
      (∀ cell ∈ cells, 0 ≤ cell ∧ cell ≤ 1)
      fun violation => ∃ column value, cells[column]? = some value
        ∧ ¬ (0 ≤ value ∧ value ≤ 1) ∧ violation = .cellValue row column value := by
    refine Settles.forM_zipIdx fun column value found => ?_
    dsimp only
    split
    · next inside => exact .pass (by simpa [inUnitInterval] using inside)
    · next outside => exact .fail ⟨by simpa [inUnitInterval] using outside, rfl⟩
  refine (Settles.forM_zipIdx fun row cells _ => ofRow row cells).imp (fun all => all) ?_
  rintro violation ⟨row, cells, stored, column, value, found, outside, rfl⟩
  exact .cellValue (Option.bind_eq_some_iff.mpr ⟨cells, stored, found⟩) outside

/-- There is a row for each input tuple, or what is wrong with their number is reported. -/
theorem checkRowCount_settles (few : box.inputs.length < Tuple.lengthLimit) :
    Settles (checkRowCount box) (Demands box tolerance .rowCount)
      (Genuine box tolerance .rowCount) := by
  rcases dimension_cases (α := Rat) .output box.outputRange 0 with
    ⟨empty, ended⟩ | ⟨outputRanged, -, outputs⟩ | ⟨-, impossible, -⟩
  · rw [checkRowCount, ended]
    exact .fail (.emptyRange empty)
  · rw [checkRowCount, outputs]
    rcases dimension_cases (α := Rat) .input box.inputRange box.inputs.length with
      ⟨empty, ended⟩ | ⟨inputRanged, -, inputs⟩ | ⟨-, excess, ended⟩
    · simp only [bind, Except.bind, ended]
      exact .fail (.emptyRange empty)
    · simp only [bind, Except.bind, inputs]
      split
      · next same => exact .pass ⟨inputRanged, outputRanged, same⟩
      · next differ => exact .fail (.rowCount differ)
    · simp only [bind, Except.bind, ended]
      exact .fail (.tooManyInputs (excess.resolve_right few.not_ge))
  · rw [Tuple.total_zero] at impossible
    exact absurd impossible (by decide)

/-- Every row has a cell for each output tuple, or what is wrong with their number is
reported. -/
theorem checkRowLength_settles (few : box.outputs.length < Tuple.lengthLimit)
    (outputRanged : 0 < box.outputRange) :
    Settles (checkRowLength box) (Demands box tolerance .rowLength)
      (Genuine box tolerance .rowLength) := by
  rcases dimension_cases (α := Rat) .output box.outputRange box.outputs.length with
    ⟨empty, -⟩ | ⟨-, -, outputs⟩ | ⟨-, excess, ended⟩
  · exact absurd empty outputRanged.ne'
  · rw [checkRowLength, outputs]
    simp only [bind, Except.bind]
    have ofRow (row : Nat) (cells : List Rat) (stored : box.matrix[row]? = some cells) : Settles
        (if cells.length = Tuple.total box.outputRange box.outputs.length then .ok ()
          else .error (.rowLength row
            (Tuple.total box.outputRange box.outputs.length) cells.length))
        (cells.length = Tuple.total box.outputRange box.outputs.length)
        (Genuine box tolerance .rowLength) := by
      split
      · next same => exact .pass same
      · next differ => exact .fail (.rowLength stored differ)
    exact (Settles.forM_zipIdx ofRow).imp (fun all => all)
      fun _ ⟨_, _, _, isGenuine⟩ => isGenuine
  · rw [checkRowLength, ended]
    exact .fail (.tooManyOutputs (excess.resolve_right few.not_ge))

/-- Every row sums to 1 within the tolerance, or one that does not is reported. -/
theorem checkRowSum_settles :
    Settles (checkRowSum box tolerance) (Demands box tolerance .rowSum)
      (Genuine box tolerance .rowSum) := by
  have ofRow (row : Nat) (cells : List Rat) (stored : box.matrix[row]? = some cells) : Settles
      (if tolerance < Scalar.abs (rowTotal cells - 1) then .error (.rowSum row (rowTotal cells))
        else .ok ())
      (|cells.sum - 1| ≤ tolerance) (Genuine box tolerance .rowSum) := by
    rw [rowTotal_eq_sum, abs_eq]
    split
    · next far => exact .fail (.rowSum stored far)
    · next close => exact .pass (not_lt.mp close)
  exact (Settles.forM_zipIdx ofRow).imp (fun all => all)
    fun _ ⟨_, _, _, isGenuine⟩ => isGenuine

/-- The parties pair up, or it is reported how they do not. -/
theorem checkPartyBalance_settles :
    Settles (checkPartyBalance box) (Demands box tolerance .partyBalance)
      (Genuine box tolerance .partyBalance) := by
  unfold checkPartyBalance
  split
  · next differ => exact .fail (.unequalParties differ)
  next balanced =>
  rw [not_not] at balanced
  split
  · next empty =>
    exact .fail (.noParties (List.length_eq_zero_iff.mp empty)
      (List.length_eq_zero_iff.mp (balanced ▸ empty)))
  · next inhabited => exact .pass ⟨balanced, Nat.pos_of_ne_zero inhabited⟩

section

variable (shaped : box.Shaped)

include shaped

/-- What the check of one assignment adds up. -/
theorem othersMarginal_eq {party input : Nat}
    {otherInputs otherOutputs : List Nat} (present : party < box.partyCount)
    (inside : input < box.inputRange)
    (inputsFit : Tuple.Fits box.inputRange (box.partyCount - 1) otherInputs)
    (outputsFit : Tuple.Fits box.outputRange (box.partyCount - 1) otherOutputs) :
    othersMarginal box party otherInputs otherOutputs input
      = .ok (box.othersMass party (otherInputs.insertIdx party input) otherOutputs) := by
  have whole : box.partyCount - 1 + 1 = box.partyCount := by omega
  have room : party ≤ box.partyCount - 1 := by omega
  have fullInput := whole ▸ inputsFit.insertIdx inside room
  rw [othersMarginal, Tuple.insertAt_eq_ok (inputsFit.1 ▸ room)]
  apply Tuple.foldValues_add
  intro output outputInside total
  have fullOutput := whole ▸ outputsFit.insertIdx outputInside room
  rw [Tuple.insertAt_eq_ok (outputsFit.1 ▸ room)]
  simp [shaped.prob_eq fullInput fullOutput, Attempt.ofExcept, Attempt.mapRefusal, bind,
    Except.bind, pure, Except.pure]

/-- One assignment of the others leaves the marginal alone, or an input under which it moves
is reported with both marginals. -/
theorem checkAssignment_settles (nonnegative : 0 ≤ tolerance) {party : Nat}
    {otherInputs otherOutputs : List Nat} (present : party < box.partyCount)
    (inputsFit : Tuple.Fits box.inputRange (box.partyCount - 1) otherInputs)
    (outputsFit : Tuple.Fits box.outputRange (box.partyCount - 1) otherOutputs) :
    Settles (checkAssignment box tolerance party otherInputs otherOutputs)
      (∀ value < box.inputRange,
        |box.othersMass party (otherInputs.insertIdx party value) otherOutputs
          - box.othersMass party (otherInputs.insertIdx party 0) otherOutputs| ≤ tolerance)
      fun stop => ∃ violation, stop = .refused violation
        ∧ Genuine box tolerance .nonSignalling violation := by
  have marginal {value : Nat} (inside : value < box.inputRange) :=
    othersMarginal_eq shaped present inside inputsFit outputsFit
  have compared (value : Nat) (least : 1 ≤ value) (below : value < 1 + (box.inputRange - 1)) :
      Settles
        (do
          let marginal ← othersMarginal box party otherInputs otherOutputs value
          if tolerance < Scalar.abs (marginal
              - box.othersMass party (otherInputs.insertIdx party 0) otherOutputs) then
            Attempt.refuse (.signalling party ⟨otherInputs, otherOutputs, 0,
              box.othersMass party (otherInputs.insertIdx party 0) otherOutputs, value, marginal⟩)
          else pure ())
        (|box.othersMass party (otherInputs.insertIdx party value) otherOutputs
          - box.othersMass party (otherInputs.insertIdx party 0) otherOutputs| ≤ tolerance)
        fun stop => ∃ violation, stop = .refused violation
          ∧ Genuine box tolerance .nonSignalling violation := by
    have inside : value < box.inputRange := by omega
    rw [marginal inside]
    simp only [bind, Except.bind, abs_eq]
    split
    · next far => exact .fail ⟨_, rfl, .signalling present inputsFit outputsFit least inside far⟩
    · next close => exact .pass (not_lt.mp close)
  rw [checkAssignment, marginal shaped.inputRanged]
  refine (Settles.foldValues compared).imp (fun all value inside => ?_)
    fun _ ⟨_, _, _, isGenuine⟩ => isGenuine
  rcases Nat.eq_zero_or_pos value with rfl | positive
  · simpa using nonnegative
  · exact all value positive (by omega)

/-- No party signals, or a place where one does is reported. Whole input tuples with input 0
of a party are the assignments of the others with that input put in. -/
theorem checkNonSignalling_settles (nonnegative : 0 ≤ tolerance) :
    Settles (checkNonSignalling box tolerance) (Demands box tolerance .nonSignalling)
      fun stop => ∃ violation, stop = .refused violation
        ∧ Genuine box tolerance .nonSignalling violation := by
  have ofParty (party : Nat) (_ : 0 ≤ party) (present : party < 0 + box.partyCount) :
      Settles
        (do
          let others ← Word.sub box.partyCount 1
          Tuple.foldTuples box.inputRange others
            (fun _ otherInputs =>
              Tuple.foldTuples box.outputRange others
                (fun _ otherOutputs =>
                  checkAssignment box tolerance party otherInputs otherOutputs)
                ())
            ())
        (∀ otherInputs, Tuple.Fits box.inputRange (box.partyCount - 1) otherInputs →
          ∀ otherOutputs, Tuple.Fits box.outputRange (box.partyCount - 1) otherOutputs →
          ∀ value < box.inputRange,
            |box.othersMass party (otherInputs.insertIdx party value) otherOutputs
              - box.othersMass party (otherInputs.insertIdx party 0) otherOutputs| ≤ tolerance)
        fun stop => ∃ violation, stop = .refused violation
          ∧ Genuine box tolerance .nonSignalling violation := by
    rw [Nat.zero_add] at present
    rw [shaped.sub_partyCount]
    refine (Settles.foldTuples fun otherInputs inputsFit =>
      Settles.foldTuples fun otherOutputs outputsFit =>
        checkAssignment_settles shaped nonnegative present inputsFit outputsFit).imp
      (fun all => all) ?_
    rintro stop ⟨_, _, _, _, isGenuine⟩
    exact isGenuine
  refine (Settles.foldValues ofParty).imp ?_ fun _ ⟨_, _, _, isGenuine⟩ => isGenuine
  intro all party present input fits isZero value inside otherOutputs outputsFit
  have whole : box.partyCount - 1 + 1 = box.partyCount := by omega
  have room : party ≤ box.partyCount - 1 := by omega
  have inputsFit := (whole.symm ▸ fits).eraseIdx room
  have close := all party (Nat.zero_le _) (by omega) _ inputsFit otherOutputs outputsFit
    value inside
  have inInput : party ≠ input.length := by rw [fits.1]; omega
  rwa [List.insertIdx_eraseIdx_self inInput, List.insertIdx_eraseIdx_self inInput,
    Tuple.set_self isZero] at close

end

end Nonlocal.Validity
