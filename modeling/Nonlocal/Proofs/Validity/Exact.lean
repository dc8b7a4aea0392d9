import Mathlib.Algebra.Order.BigOperators.Group.Finset
import Mathlib.Algebra.Order.Ring.Rat
import Nonlocal.Proofs.Box.Tabulated
import Nonlocal.Proofs.Validity.Closeness
import Nonlocal.Proofs.Validity.Outcome

/-!
# Boxes that are valid at tolerance 0

Over the exact rationals a box that passes the checks at tolerance 0 is a family of
probability distributions: no cell is negative and every row sums to 1. It is also
exactly non-signalling: the sum over one party's outputs does not depend on the input
of that party. The demands of the checks are read at tolerance 0 here, with inputs and
outputs replaced inside whole tuples. In turn such a box passes, if its names can be the
variables of a model and its parties can be counted.
-/

namespace Nonlocal

namespace Box

/-- A box of exact distributions that is exactly non-signalling. -/
structure Exact (box : Box Rat) : Prop where
  shaped : box.Shaped
  nonneg : ∀ input output, 0 ≤ box.likelihood input output
  whole : ∀ input, Tuple.Fits box.inputRange box.partyCount input →
    ∑ output ∈ Tuple.tuples box.outputRange box.partyCount, box.likelihood input output = 1
  silent : ∀ input output party value,
    Tuple.Fits box.inputRange box.partyCount input →
    Tuple.Fits box.outputRange box.partyCount output →
    party < box.partyCount → value < box.inputRange →
    ∑ told ∈ Finset.range box.outputRange,
        box.likelihood (input.set party value) (output.set party told)
      = ∑ told ∈ Finset.range box.outputRange, box.likelihood input (output.set party told)

end Box

namespace Validity

variable {box : Box Rat}

/-- No likelihood in a valid box is negative. -/
theorem likelihood_nonneg {tolerance : Rat} (valid : validate box tolerance = .ok ())
    (input output : List Nat) : 0 ≤ box.likelihood input output :=
  Box.likelihood_nonneg
    (fun row rowMember value member => (cell_of_validate valid row rowMember value member).1)
    input output

/-- At tolerance 0 every row sums to 1. -/
theorem sum_row_of_validate (valid : validate box 0 = .ok ()) :
    ∀ row ∈ box.matrix, row.sum = 1 := by
  obtain ⟨_, -, passed⟩ :=
    (Attempt.bind_eq_ok_iff _ _ _).mp (runCheck_of_validate valid .rowSum)
  have demanded : Demands box 0 .rowSum :=
    checkRowSum_settles.demanded_of_ok ((Attempt.ofExcept_eq_ok_iff _ _).mp passed)
  exact fun row member => sub_eq_zero.mp (abs_nonpos_iff.mp (demanded row member))

/-- At tolerance 0 the outputs to fitting inputs have probabilities that sum to 1. -/
theorem sum_likelihood_of_validate (shaped : box.Shaped) (valid : validate box 0 = .ok ())
    {input : List Nat} (fits : Tuple.Fits box.inputRange box.partyCount input) :
    ∑ output ∈ Tuple.tuples box.outputRange box.partyCount, box.likelihood input output = 1 := by
  obtain ⟨row, member, looked⟩ := shaped.mapM_prob_walk fits
  have known := Attempt.mapM_eq_map (box.prob input) (box.likelihood input)
    (Tuple.walk box.outputRange box.partyCount) fun output outputMember =>
      shaped.prob_eq fits (Tuple.mem_walk.mp outputMember)
  rw [Tuple.sum_tuples, Except.ok.inj (known.symm.trans looked)]
  exact sum_row_of_validate valid row member

/-- At tolerance 0 the sum over one party's outputs does not depend on its input: with
either input it is the same as with input 0. -/
theorem silent_of_validate (shaped : box.Shaped) (valid : validate box 0 = .ok ())
    {input output : List Nat} {party value : Nat}
    (inputFits : Tuple.Fits box.inputRange box.partyCount input)
    (outputFits : Tuple.Fits box.outputRange box.partyCount output)
    (present : party < box.partyCount) (inside : value < box.inputRange) :
    ∑ told ∈ Finset.range box.outputRange,
        box.likelihood (input.set party value) (output.set party told)
      = ∑ told ∈ Finset.range box.outputRange, box.likelihood input (output.set party told) := by
  obtain ⟨_, -, passed⟩ :=
    (Attempt.bind_eq_ok_iff _ _ _).mp (runCheck_of_validate valid .nonSignalling)
  have close := (demands_nonSignalling_iff shaped).mp
    ((checkNonSignalling_settles shaped le_rfl).demanded_of_ok passed) party present
  obtain ⟨own, ownInside, found⟩ := inputFits.exists_digit present
  have same := (close value inside).trans (close own ownInside).symm input output
    inputFits outputFits
  rw [add_zero, Tuple.set_self found] at same
  exact sub_eq_zero.mp (abs_nonpos_iff.mp same)

/-- What is valid at tolerance 0 is an exact box. -/
theorem exact_of_validate (shaped : box.Shaped) (valid : validate box 0 = .ok ()) :
    box.Exact where
  shaped := shaped
  nonneg := likelihood_nonneg valid
  whole _ fits := sum_likelihood_of_validate shaped valid fits
  silent _ _ _ _ inputFits outputFits present inside :=
    silent_of_validate shaped valid inputFits outputFits present inside

section

variable (exact : box.Exact)

include exact

/-- No likelihood of an exact box is above 1. -/
theorem likelihood_le_one {input output : List Nat}
    (inputFits : Tuple.Fits box.inputRange box.partyCount input)
    (outputFits : Tuple.Fits box.outputRange box.partyCount output) :
    box.likelihood input output ≤ 1 := by
  rw [← exact.whole input inputFits]
  exact Finset.single_le_sum (fun other _ => exact.nonneg input other)
    (Tuple.mem_tuples.mpr outputFits)

/-- The cells of an exact box lie in the unit interval. -/
theorem demands_valueRange : Demands box 0 .valueRange := by
  intro row rowMember cell member
  rw [exact.shaped.matrix_eq] at rowMember
  obtain ⟨input, inWalk, rfl⟩ := List.mem_map.mp rowMember
  obtain ⟨output, outWalk, rfl⟩ := List.mem_map.mp member
  exact ⟨exact.nonneg input output,
    likelihood_le_one exact (Tuple.mem_walk.mp inWalk) (Tuple.mem_walk.mp outWalk)⟩

/-- The rows of an exact box sum to 1. -/
theorem demands_rowSum : Demands box 0 .rowSum := by
  intro row member
  rw [exact.shaped.matrix_eq] at member
  obtain ⟨input, inWalk, rfl⟩ := List.mem_map.mp member
  rw [← Tuple.sum_tuples, exact.whole input (Tuple.mem_walk.mp inWalk), sub_self, abs_zero]

/-- Nobody signals in an exact box. -/
theorem demands_nonSignalling : Demands box 0 .nonSignalling := by
  rw [demands_nonSignalling_iff exact.shaped]
  intro party present value inside input output inputFits outputFits
  have same := exact.silent input output party value inputFits outputFits present inside
  have baseline := exact.silent input output party 0 inputFits outputFits present
    exact.shaped.inputRanged
  rw [Box.freeMass, Box.freeMass, same, baseline, sub_self, abs_zero]

/-- An exact box is valid at tolerance 0, if its names can be the variables of a model and its
parties can be counted. -/
theorem validate_of_exact (named : box.Named) (few : box.partyCount < Tuple.lengthLimit) :
    validate box 0 = .ok () := by
  have shaped := exact.shaped
  have words : box.inputRange ≤ Word.limit :=
    (shaped.range_le_total box.inputRange).trans shaped.rowWords.le
  refine (Attempt.forM_eq_ok_iff _ _).mpr fun check _ => ?_
  refine (Attempt.bind_eq_ok_iff _ _ _).mpr ⟨(), by decide +kernel, ?_⟩
  cases check with
  | valueRange =>
    refine (Attempt.ofExcept_eq_ok_iff _ _).mpr
      ((@checkValueRange_settles box 0).ok_of_not_genuine ?_)
    intro violation isGenuine
    cases isGenuine with
    | cellValue found outside =>
      obtain ⟨row, stored, inRow⟩ := Option.bind_eq_some_iff.mp found
      exact outside (demands_valueRange exact row (List.mem_of_getElem? stored) _
        (List.mem_of_getElem? inRow))
  | rowCount => exact (Attempt.ofExcept_eq_ok_iff _ _).mpr (checkRowCount_of_shaped shaped few)
  | rowLength => exact (Attempt.ofExcept_eq_ok_iff _ _).mpr (checkRowLength_of_shaped shaped few)
  | rowSum =>
    refine (Attempt.ofExcept_eq_ok_iff _ _).mpr (checkRowSum_settles.ok_of_not_genuine ?_)
    intro violation isGenuine
    cases isGenuine with
    | rowSum stored far =>
      exact far.not_ge (demands_rowSum exact _ (List.mem_of_getElem? stored))
  | partyBalance => exact (Attempt.ofExcept_eq_ok_iff _ _).mpr (checkPartyBalance_of_shaped shaped)
  | variableNaming =>
    exact (Attempt.ofExcept_eq_ok_iff _ _).mpr ((checkVariableNaming_eq_ok_iff words).mpr named)
  | nonSignalling =>
    apply (checkNonSignalling_settles shaped le_rfl).ok_of_not_genuine
    rintro stop ⟨violation, -, isGenuine⟩
    exact isGenuine.not_nonSignalling (demands_nonSignalling exact)

end

end Validity

end Nonlocal
