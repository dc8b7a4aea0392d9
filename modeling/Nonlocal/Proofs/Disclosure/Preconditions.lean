import Nonlocal.Proofs.Disclosure.Existence

/-!
# What a box has to be before a model can be made of it

The preconditions of a model are looked at before anything else, and they are enough: in a
box that meets all of them every probability that is asked for is found, whatever the cells
hold and whether or not the box is valid. So making a model ends in a model or in the first
precondition that the box does not meet, and never in a query that is refused.
-/

namespace Nonlocal

variable {α : Type} {box : Box α}

/-- A box does not meet a precondition, and the report of it is right about the box. -/
def Precondition.Lacked (box : Box α) : Precondition → Prop
  | .balanced inputs outputs =>
    box.inputs.length = inputs ∧ box.outputs.length = outputs ∧ outputs ≠ inputs
  | .inhabited => box.inputs = []
  | .fewEnough parties => box.inputs.length = parties ∧ PartySet.maxParties < parties
  | .ranged => box.inputRange = 0 ∨ box.outputRange = 0
  | .shaped =>
    ¬ (box.inputRange ^ box.inputs.length < Word.limit
      ∧ box.outputRange ^ box.inputs.length < Word.limit
      ∧ box.matrix.length = box.inputRange ^ box.inputs.length
      ∧ ∀ row ∈ box.matrix, row.length = box.outputRange ^ box.inputs.length)

namespace Disclosure

/-- A box lacks nothing exactly if it has its shape and few enough parties. -/
theorem lacking?_eq_none_iff :
    lacking? box = none ↔ box.Shaped ∧ box.partyCount ≤ PartySet.maxParties := by
  constructor
  · exact fun complete => ⟨Box.shaped_of_lacking? complete, Box.few_of_lacking? complete⟩
  · rintro ⟨shaped, few⟩
    rw [shaped.lacking?_eq, if_pos few]

/-- What is reported as lacking is lacked. -/
theorem lacked_of_lacking? {lacking : Precondition} (reported : lacking? box = some lacking) :
    lacking.Lacked box := by
  simp only [lacking?] at reported
  split at reported
  · next unbalanced =>
    obtain rfl := Option.some.inj reported
    exact ⟨rfl, rfl, unbalanced⟩
  split at reported
  · next empty =>
    obtain rfl := Option.some.inj reported
    exact List.length_eq_zero_iff.mp empty
  split at reported
  · next many =>
    obtain rfl := Option.some.inj reported
    exact ⟨rfl, many⟩
  next few =>
  split at reported
  · next rangeless =>
    obtain rfl := Option.some.inj reported
    exact rangeless
  split at reported
  · next misshapen =>
    obtain rfl := Option.some.inj reported
    rw [Bool.not_eq_true', ← Bool.not_eq_true] at misshapen
    exact fun sized => misshapen ((Box.isShaped_iff (Nat.le_of_not_lt few)).mpr sized)
  · cases reported

/-- The matrix of a box is what is lacking exactly if nothing else is and one of the numbers of
tuples is no word or the matrix has other rows or columns. -/
theorem lacking?_eq_shaped_iff :
    lacking? box = some .shaped
      ↔ (box.outputs.length = box.partyCount ∧ 1 ≤ box.partyCount
          ∧ box.partyCount ≤ PartySet.maxParties ∧ 1 ≤ box.inputRange ∧ 1 ≤ box.outputRange)
        ∧ Precondition.shaped.Lacked box := by
  constructor
  · intro reported
    refine ⟨?_, lacked_of_lacking? reported⟩
    simp only [lacking?] at reported
    split at reported
    · cases reported
    split at reported
    · cases reported
    split at reported
    · cases reported
    split at reported
    · cases reported
    omega
  · rintro ⟨⟨balanced, inhabited, few, inputRanged, outputRanged⟩, misshapen⟩
    have unshaped : ¬ isShaped box = true := fun shaped =>
      misshapen ((Box.isShaped_iff few).mp shaped)
    simp only [lacking?]
    rw [if_neg (by omega), if_neg (by omega), if_neg (by omega), if_neg (by omega),
      if_pos (by simpa using unshaped)]

/-- The shape of a box of few parties, in numbers. -/
theorem shaped_and_few_iff :
    (box.Shaped ∧ box.partyCount ≤ PartySet.maxParties)
      ↔ box.outputs.length = box.inputs.length
        ∧ 1 ≤ box.inputs.length ∧ box.inputs.length ≤ 63
        ∧ 1 ≤ box.inputRange ∧ 1 ≤ box.outputRange
        ∧ box.inputRange ^ box.inputs.length < 2 ^ 64
        ∧ box.outputRange ^ box.inputs.length < 2 ^ 64
        ∧ box.matrix.length = box.inputRange ^ box.inputs.length
        ∧ ∀ row ∈ box.matrix, row.length = box.outputRange ^ box.inputs.length := by
  constructor
  · rintro ⟨shaped, few⟩
    exact ⟨shaped.balanced, shaped.inhabited, few, shaped.inputRanged, shaped.outputRanged,
      shaped.rowWords, shaped.columnWords, shaped.rows, shaped.columns⟩
  · rintro ⟨balanced, inhabited, few, inputRanged, outputRanged, rowWords, columnWords, rows,
      columns⟩
    exact ⟨⟨balanced, inhabited, inputRanged, outputRanged, rows, columns, rowWords, columnWords⟩,
      few⟩

section

variable [Zero α] [Add α] [Div α] [BEq α] [LT α] [DecidableLT α] [Scalar α]

/-- Making a model is refused for a precondition exactly if this is the one that is lacking. -/
theorem model_eq_refuse_iff (box : Box α) (lacking : Precondition) :
    Disclosure.model box = Attempt.refuse (.precondition lacking)
      ↔ lacking? box = some lacking := by
  cases reported : lacking? box with
  | none =>
    obtain ⟨shaped, few⟩ := lacking?_eq_none_iff.mp reported
    obtain ⟨model, generated⟩ := exists_model shaped few
    simp [generated, Attempt.refuse]
  | some other => simp [Disclosure.model, reported, Attempt.refuse]

/-- A model is made of exactly those boxes that have as many outputs as inputs, from one to 63 of
them, values in both ranges, numbers of input and output tuples that are words, and a matrix
with as many rows and columns. For every other box the making ends in a precondition that the
box does not meet. For no box does it end in a query that is refused, nor in a fault. -/
theorem model_fails_on_preconditions (box : Box α) :
    ((∃ model, Disclosure.model box = .ok model)
        ↔ box.outputs.length = box.inputs.length
          ∧ 1 ≤ box.inputs.length ∧ box.inputs.length ≤ 63
          ∧ 1 ≤ box.inputRange ∧ 1 ≤ box.outputRange
          ∧ box.inputRange ^ box.inputs.length < 2 ^ 64
          ∧ box.outputRange ^ box.inputs.length < 2 ^ 64
          ∧ box.matrix.length = box.inputRange ^ box.inputs.length
          ∧ ∀ row ∈ box.matrix, row.length = box.outputRange ^ box.inputs.length)
      ∧ ((∃ model, Disclosure.model box = .ok model)
        ∨ ∃ lacking : Precondition, lacking.Lacked box
          ∧ Disclosure.model box = Attempt.refuse (.precondition lacking))
      ∧ ∀ error, Disclosure.model box ≠ Attempt.refuse (.query error) := by
  cases reported : lacking? box with
  | none =>
    obtain ⟨shaped, few⟩ := lacking?_eq_none_iff.mp reported
    obtain ⟨model, generated⟩ := exists_model shaped few
    refine ⟨iff_of_true ⟨model, generated⟩ (shaped_and_few_iff.mp ⟨shaped, few⟩),
      .inl ⟨model, generated⟩, fun error refused => ?_⟩
    cases generated.symm.trans refused
  | some lacking =>
    have refused : Disclosure.model box = Attempt.refuse (.precondition lacking) := by
      rw [Disclosure.model, reported]
    refine ⟨iff_of_false ?_ ?_, .inr ⟨lacking, lacked_of_lacking? reported, refused⟩,
      fun error queried => ?_⟩
    · rintro ⟨model, generated⟩
      cases refused.symm.trans generated
    · rw [← shaped_and_few_iff, ← lacking?_eq_none_iff, reported]
      exact Option.some_ne_none lacking
    · cases refused.symm.trans queried

end

end Disclosure

end Nonlocal
