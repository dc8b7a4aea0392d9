import Nonlocal.Proofs.Identifier.Numbered
import Nonlocal.Proofs.Validity.Reports

/-!
# Boxes without a choice

If every input has a single value, nobody has anything to signal: the last check forms
the marginals and compares none of them. The box in which every party has one input value
and one output value is valid for any number of parties that can be counted. The validity
checks know no other bound.
-/

namespace Nonlocal

namespace Validity

/-- The tolerance that is used where none is asked for can be used. -/
theorem ensureUsable_default : ensureUsable (defaultTolerance : Float) = .ok () :=
  Attempt.eq_ok_of_toOption (by decide +kernel)

section

variable {α : Type} [Zero α] [Add α] {box : Box α} (shaped : box.Shaped)

include shaped

/-- Without a second input nobody has anything to signal. -/
theorem checkNonSignalling_of_single [Sub α] [LT α] [DecidableLT α] [Scalar α] (tolerance : α)
    (single : box.inputRange = 1) : checkNonSignalling box tolerance = .ok () := by
  have still {party : Nat} {otherInputs otherOutputs : List Nat} (present : party < box.partyCount)
      (inputsFit : Tuple.Fits box.inputRange (box.partyCount - 1) otherInputs)
      (outputsFit : Tuple.Fits box.outputRange (box.partyCount - 1) otherOutputs) :
      checkAssignment box tolerance party otherInputs otherOutputs = .ok () := by
    obtain ⟨marginal, formed⟩ :=
      exists_othersMarginal shaped present shaped.inputRanged inputsFit outputsFit
    refine (Attempt.bind_eq_ok_iff _ _ _).mpr ⟨marginal, formed, ?_⟩
    rw [single]
    rfl
  rw [checkNonSignalling, Attempt.foldValues_eq_foldlM, Attempt.foldlM_unit_eq_ok_iff]
  intro party member
  have present : party < box.partyCount := by simpa using member
  refine (Attempt.bind_eq_ok_iff _ _ _).mpr ⟨_, shaped.sub_partyCount, ?_⟩
  rw [Tuple.foldTuples_eq_foldlM, Attempt.foldlM_unit_eq_ok_iff]
  intro otherInputs inputsMember
  rw [Tuple.foldTuples_eq_foldlM, Attempt.foldlM_unit_eq_ok_iff]
  exact fun otherOutputs outputsMember =>
    still present (Tuple.mem_walk.mp inputsMember) (Tuple.mem_walk.mp outputsMember)

end

end Validity

/-- Parties that have one input value and one output value each. -/
def idleBox (parties : Nat) : Box Float where
  inputs := (List.range parties).map fun party => "x" ++ toString party
  outputs := (List.range parties).map fun party => "a" ++ toString party
  inputRange := 1
  outputRange := 1
  matrix := [[1]]

namespace idleBox

variable {parties : Nat}

/-- The variables can be those of a model. -/
theorem named (parties : Nat) : (idleBox parties).Named := Box.named_of_numbered rfl rfl

/-- There is one row of one cell. -/
theorem shaped (inhabited : 0 < parties) : (idleBox parties).Shaped where
  balanced := by simp [idleBox, Box.partyCount]
  inhabited := by simpa [idleBox, Box.partyCount] using inhabited
  inputRanged := Nat.one_pos
  outputRanged := Nat.one_pos
  rows := (Nat.one_pow _).symm
  columns row member := by
    obtain rfl := List.mem_singleton.mp member
    exact (Nat.one_pow _).symm
  rowWords := (Nat.one_pow _).trans_lt (by decide)
  columnWords := (Nat.one_pow _).trans_lt (by decide)

/-- The only cell lies in the unit interval. It is the same for any number of parties. -/
theorem cells (parties : Nat) : Validity.checkValueRange (idleBox parties) = .ok () :=
  Attempt.eq_ok_of_toOption
    (by decide +kernel : (Validity.checkValueRange (idleBox 1)).toOption = _)

/-- The box is valid for any number of parties that can be counted. -/
theorem valid (inhabited : 0 < parties) (short : parties < Tuple.lengthLimit) :
    Validity.validate (idleBox parties) Validity.defaultTolerance = .ok () := by
  have shape := shaped inhabited
  have counted : (idleBox parties).partyCount < Tuple.lengthLimit := by
    simpa [idleBox, Box.partyCount] using short
  have sums : Validity.checkRowSum (idleBox parties) Validity.defaultTolerance = .ok () :=
    Attempt.eq_ok_of_toOption (by decide +kernel :
      (Validity.checkRowSum (idleBox 1) Validity.defaultTolerance).toOption = _)
  have names : Validity.checkVariableNaming (idleBox parties) = .ok () :=
    (Validity.checkVariableNaming_eq_ok_iff (by decide : 1 ≤ Word.limit)).mpr (named parties)
  refine (Attempt.forM_eq_ok_iff _ _).mpr fun check _ => ?_
  refine (Attempt.bind_eq_ok_iff _ _ _).mpr ⟨(), by rw [Validity.ensureUsable_default]; rfl, ?_⟩
  cases check with
  | valueRange => exact (Attempt.ofExcept_eq_ok_iff _ _).mpr (cells parties)
  | rowCount =>
    exact (Attempt.ofExcept_eq_ok_iff _ _).mpr (Validity.checkRowCount_of_shaped shape counted)
  | rowLength =>
    exact (Attempt.ofExcept_eq_ok_iff _ _).mpr (Validity.checkRowLength_of_shaped shape counted)
  | rowSum => exact (Attempt.ofExcept_eq_ok_iff _ _).mpr sums
  | partyBalance =>
    exact (Attempt.ofExcept_eq_ok_iff _ _).mpr (Validity.checkPartyBalance_of_shaped shape)
  | variableNaming => exact (Attempt.ofExcept_eq_ok_iff _ _).mpr names
  | nonSignalling => exact Validity.checkNonSignalling_of_single shape _ rfl

end idleBox

end Nonlocal
