import Mathlib.Tactic.Linarith
import Mathlib.Tactic.NormNum
import Nonlocal.Proofs.Box.Tabulated
import Nonlocal.Proofs.Tuple.Rearranged
import Nonlocal.Proofs.Validity.Closeness
import Nonlocal.Proofs.Validity.Outcome

/-!
# How the input values are numbered

The last check compares every value of an input with the value 0. Numbering the values of
one party's input differently makes another value the baseline of that party and changes
nothing else. So the verdict stays the same where the baseline does, or where the tolerance
is 0; otherwise two values that are both close to one baseline may be twice as far from
each other, and no farther.
-/

namespace Nonlocal

namespace Tuple

variable {radix length place : Nat} {values : Equiv.Perm Nat} {digits : List Nat}

/-- Renumbering the values of one digit keeps a tuple fitting. -/
theorem Fits.modify (fits : Fits radix length digits) (keeps : Keeps values radix) (place : Nat) :
    Fits radix length (digits.modify place values) := by
  refine ⟨by rw [List.length_modify, fits.1], fun digit member => ?_⟩
  obtain ⟨position, found⟩ := List.mem_iff_getElem?.mp member
  rw [List.getElem?_modify, Option.map_eq_map, Option.map_eq_some_iff] at found
  obtain ⟨own, stored, renumbered⟩ := found
  have inside := (fits.lt_of_getElem? stored).2
  split at renumbered
  · exact renumbered ▸ (keeps own).mpr inside
  · exact renumbered ▸ inside

/-- Every fitting tuple is one in which the values of a digit were renumbered. -/
theorem Fits.exists_modify (fits : Fits radix length digits) (keeps : Keeps values radix)
    (place : Nat) : ∃ origin, Fits radix length origin ∧ origin.modify place values = digits := by
  refine ⟨digits.modify place values.symm, fits.modify keeps.symm place, ?_⟩
  apply List.ext_getElem?
  intro position
  rw [List.getElem?_modify, List.getElem?_modify]
  by_cases same : place = position
  · cases digits[position]? <;> simp [same]
  · cases digits[position]? <;> simp [same]

end Tuple

namespace Box

variable {box : Box Rat} {values : Equiv.Perm Nat}

/-- The box in which the values of one party's input have other numbers: the likelihoods for
a value are those that the box has for the value that it is sent to. -/
def renumbered (box : Box Rat) (party : Nat) (values : Equiv.Perm Nat) : Box Rat :=
  tabulated box.inputs box.outputs box.inputRange box.outputRange fun input output =>
    box.likelihood (input.modify party values) output

/-- The number that a party's value has, where one party's values have other numbers. -/
def numberOf (renumberedParty : Nat) (values : Equiv.Perm Nat) (party value : Nat) : Nat :=
  if party = renumberedParty then values value else value

/-- The new numbers are those of values in the range. -/
theorem numberOf_lt {renumberedParty party value range : Nat} (keeps : Tuple.Keeps values range)
    (inside : value < range) : numberOf renumberedParty values party value < range := by
  unfold numberOf
  split
  · exact (keeps value).mpr inside
  · exact inside

/-- Every value of the range is the new number of one. -/
theorem exists_numberOf {range value : Nat} (keeps : Tuple.Keeps values range)
    (inside : value < range) (renumberedParty party : Nat) :
    ∃ origin < range, numberOf renumberedParty values party origin = value := by
  unfold numberOf
  split
  · exact ⟨values.symm value, (keeps.symm value).mpr inside, values.apply_symm_apply value⟩
  · exact ⟨value, inside, rfl⟩

/-- The shape is that of the box. -/
theorem Shaped.renumbered (shaped : box.Shaped) (party : Nat) (values : Equiv.Perm Nat) :
    (box.renumbered party values).Shaped := by
  have rectangular : (box.renumbered party values).Rectangular :=
    rectangular_tabulated shaped.balanced
  exact { shaped with rows := rectangular.rows, columns := rectangular.columns }

/-- What the others answer is as likely as it is in the box for the value with the new
number. -/
theorem Shaped.freeMass_renumbered (shaped : box.Shaped) {renumberedParty party value : Nat}
    {input output : List Nat}
    (inputFits : Tuple.Fits box.inputRange box.partyCount input)
    (outputFits : Tuple.Fits box.outputRange box.partyCount output)
    (inside : value < box.inputRange) :
    (box.renumbered renumberedParty values).freeMass party (input.set party value) output
      = box.freeMass party ((input.modify renumberedParty values).set party
          (numberOf renumberedParty values party value)) output := by
  have exchanged : (input.set party value).modify renumberedParty values
      = (input.modify renumberedParty values).set party
          (numberOf renumberedParty values party value) := by
    apply List.ext_getElem?
    intro position
    rw [List.getElem?_modify, List.getElem?_set, List.getElem?_set, List.getElem?_modify,
      List.length_modify, numberOf]
    by_cases replaced : party = position
    · subst replaced
      by_cases present : party < input.length <;> simp [present, eq_comm]
    · simp [replaced]
  apply Finset.sum_congr rfl
  intro told member
  have toldFits := outputFits.set (Finset.mem_range.mp member) party
  rw [Box.renumbered, likelihood_tabulated (shaped.renumbered renumberedParty values)
    (inputFits.set inside party) toldFits, exchanged]

/-- Values are close where their new numbers are. -/
theorem Shaped.close_renumbered_iff (shaped : box.Shaped)
    {renumberedParty party value baseline : Nat} {tolerance : Rat}
    (keeps : Tuple.Keeps values box.inputRange) (inside : value < box.inputRange)
    (baselineInside : baseline < box.inputRange) :
    (box.renumbered renumberedParty values).Close tolerance party value baseline
      ↔ box.Close tolerance party (numberOf renumberedParty values party value)
          (numberOf renumberedParty values party baseline) := by
  constructor
  · intro close input output inputFits outputFits
    obtain ⟨origin, originFits, rfl⟩ := inputFits.exists_modify keeps renumberedParty
    rw [← shaped.freeMass_renumbered originFits outputFits inside,
      ← shaped.freeMass_renumbered originFits outputFits baselineInside]
    exact close origin output originFits outputFits
  · intro close input output inputFits outputFits
    have originFits : Tuple.Fits box.inputRange box.partyCount input := inputFits
    have toldFits : Tuple.Fits box.outputRange box.partyCount output := outputFits
    rw [shaped.freeMass_renumbered originFits toldFits inside,
      shaped.freeMass_renumbered originFits toldFits baselineInside]
    exact close _ output (originFits.modify keeps renumberedParty) toldFits

end Box

namespace Validity

variable {box : Box Rat} {values : Equiv.Perm Nat} {tolerance : Rat} {party : Nat}

/-- In a shaped box the last check passes exactly if all values are close to the baseline. -/
theorem checkNonSignalling_eq_ok_iff (shaped : box.Shaped) (nonnegative : 0 ≤ tolerance) :
    checkNonSignalling box tolerance = .ok ()
      ↔ ∀ party < box.partyCount, ∀ value < box.inputRange, box.Close tolerance party value 0 := by
  rw [← demands_nonSignalling_iff shaped]
  have settles := checkNonSignalling_settles shaped nonnegative
  refine ⟨settles.demanded_of_ok, fun demanded => settles.ok_of_not_genuine ?_⟩
  rintro stop ⟨violation, -, isGenuine⟩
  exact isGenuine.not_nonSignalling demanded

/-- With other numbers for one party's values, the last check compares all values of that party
with the one whose new number is that of the baseline. -/
theorem checkNonSignalling_renumbered_iff (shaped : box.Shaped) (nonnegative : 0 ≤ tolerance)
    (keeps : Tuple.Keeps values box.inputRange) :
    checkNonSignalling (box.renumbered party values) tolerance = .ok ()
      ↔ ∀ other < box.partyCount, ∀ value < box.inputRange,
        box.Close tolerance other value (Box.numberOf party values other 0) := by
  rw [checkNonSignalling_eq_ok_iff (shaped.renumbered party values) nonnegative]
  have sameParties : (box.renumbered party values).partyCount = box.partyCount := rfl
  have sameRange : (box.renumbered party values).inputRange = box.inputRange := rfl
  rw [sameParties, sameRange]
  constructor
  · intro close other present value inside
    obtain ⟨origin, originInside, rfl⟩ := Box.exists_numberOf keeps inside party other
    exact (shaped.close_renumbered_iff keeps originInside shaped.inputRanged).mp
      (close other present origin originInside)
  · intro close other present value inside
    rw [shaped.close_renumbered_iff keeps inside shaped.inputRanged]
    exact close other present _ (Box.numberOf_lt keeps inside)

/-- The verdict of the last check stays the same if the baseline keeps its number or the tolerance
is 0, and with any numbers for the values of a party it changes at most by a factor of 2 in
the tolerance. -/
theorem nonSignalling_renumbered (nonnegative : 0 ≤ tolerance)
    (earlier : ∀ check ∈ Check.nonSignalling.before, runCheck check box tolerance = .ok ())
    (party : Nat) (keeps : Tuple.Keeps values box.inputRange) :
    (values 0 = 0 ∨ tolerance = 0 → (checkNonSignalling box tolerance = .ok ()
        ↔ checkNonSignalling (box.renumbered party values) tolerance = .ok ()))
      ∧ (checkNonSignalling box tolerance = .ok () →
        checkNonSignalling (box.renumbered party values) (2 * tolerance) = .ok ())
      ∧ (checkNonSignalling (box.renumbered party values) tolerance = .ok () →
        checkNonSignalling box (2 * tolerance) = .ok ()) := by
  have shaped := shaped_of_runCheck (earlier .rowCount (by decide))
    (earlier .rowLength (by decide)) (earlier .partyBalance (by decide))
  have doubled : 0 ≤ 2 * tolerance := by linarith
  have baseline (other : Nat) : Box.numberOf party values other 0 < box.inputRange :=
    Box.numberOf_lt keeps shaped.inputRanged
  have forth : checkNonSignalling box tolerance = .ok () →
      checkNonSignalling (box.renumbered party values) (2 * tolerance) = .ok () := by
    rw [checkNonSignalling_eq_ok_iff shaped nonnegative,
      checkNonSignalling_renumbered_iff shaped doubled keeps]
    intro close other present value inside
    rw [two_mul]
    exact (close other present value inside).trans (close other present _ (baseline other)).symm
  have back : checkNonSignalling (box.renumbered party values) tolerance = .ok () →
      checkNonSignalling box (2 * tolerance) = .ok () := by
    rw [checkNonSignalling_eq_ok_iff shaped doubled,
      checkNonSignalling_renumbered_iff shaped nonnegative keeps]
    intro close other present value inside
    rw [two_mul]
    exact (close other present value inside).trans (close other present 0 shaped.inputRanged).symm
  refine ⟨?_, forth, back⟩
  rintro (fixed | rfl)
  · have kept (other : Nat) : Box.numberOf party values other 0 = 0 := by simp [Box.numberOf, fixed]
    simp only [checkNonSignalling_eq_ok_iff shaped nonnegative,
      checkNonSignalling_renumbered_iff shaped nonnegative keeps, kept]
  · rw [mul_zero] at forth back
    exact ⟨forth, back⟩

/-- Two parties of which the second answers more or less evenly, depending on what the first
is asked: its answers to 1 and to 2 lie on both sides of those to 0. -/
def leaningBox : Box Rat where
  inputs := ["x", "y"]
  outputs := ["a", "b"]
  inputRange := 3
  outputRange := 2
  matrix := [
    [1 / 2, 1 / 2, 0, 0], [1 / 2, 1 / 2, 0, 0], [1 / 2, 1 / 2, 0, 0],
    [3 / 4, 1 / 4, 0, 0], [3 / 4, 1 / 4, 0, 0], [3 / 4, 1 / 4, 0, 0],
    [1 / 4, 3 / 4, 0, 0], [1 / 4, 3 / 4, 0, 0], [1 / 4, 3 / 4, 0, 0]]

/-- The leaning box passes all checks if the tolerance is a quarter. -/
theorem leaningBox_passes :
    (∀ check ∈ Check.nonSignalling.before, runCheck check leaningBox (1 / 4) = .ok ())
      ∧ checkNonSignalling leaningBox (1 / 4) = .ok () := by
  decide +kernel

/-- Two values inside a range may be exchanged. -/
theorem keeps_swap {left right count : Nat} (leftInside : left < count)
    (rightInside : right < count) : Tuple.Keeps (Equiv.swap left right) count := by
  intro value
  rw [Equiv.swap_apply_def]
  split
  · omega
  · split
    · omega
    · rfl

/-- The leaning box passes the last check with its values 1 and 2 exchanged as it does without,
and with 0 and 1 exchanged it does so at twice the tolerance. -/
theorem leaningBox_renumbered :
    (∀ check ∈ Check.nonSignalling.before, runCheck check leaningBox (1 / 4) = .ok ())
      ∧ checkNonSignalling leaningBox (1 / 4) = .ok ()
      ∧ checkNonSignalling (leaningBox.renumbered 0 (Equiv.swap 1 2)) (1 / 4) = .ok ()
      ∧ checkNonSignalling (leaningBox.renumbered 0 (Equiv.swap 0 1)) (1 / 2) = .ok () := by
  obtain ⟨earlier, passed⟩ := leaningBox_passes
  obtain ⟨fixing, -⟩ := nonSignalling_renumbered (by norm_num) earlier 0
    (keeps_swap (by decide : 1 < 3) (by decide : 2 < 3))
  obtain ⟨-, doubling, -⟩ := nonSignalling_renumbered (by norm_num) earlier 0
    (keeps_swap (by decide : 0 < 3) (by decide : 1 < 3))
  have wider : (2 * (1 / 4) : Rat) = 1 / 2 := by norm_num
  exact ⟨earlier, passed, (fixing (.inl (by decide))).mp passed, wider ▸ doubling passed⟩

/-- The leaning box passes all checks at a tolerance at which it signals with its values 0 and 1
exchanged. -/
theorem leaningBox_depends :
    ¬ ((∀ check ∈ Check.nonSignalling.before, runCheck check leaningBox (1 / 4) = .ok ()) →
      Tuple.Keeps (Equiv.swap 0 1) leaningBox.inputRange →
      (checkNonSignalling leaningBox (1 / 4) = .ok ()
        ↔ checkNonSignalling (leaningBox.renumbered 0 (Equiv.swap 0 1)) (1 / 4) = .ok ())) := by
  obtain ⟨earlier, passed⟩ := leaningBox_passes
  have refused : ¬ checkNonSignalling (leaningBox.renumbered 0 (Equiv.swap 0 1)) (1 / 4)
      = .ok () := by decide +kernel
  intro independent
  exact refused ((independent earlier (keeps_swap (by decide) (by decide))).mp passed)

end Validity

end Nonlocal
