import Nonlocal.Proofs.Identifier.Separation
import Nonlocal.Proofs.Tuple.Index

/-!
# Which names are identifiers, and which are generated

The tests on names are read here as statements about their characters. A name is
generated if the model has it for something of its own; for a label the test
reads a count off the end of the name and writes the label again, so it finds
exactly the labels of the values in range.
-/

namespace Nonlocal.Identifier

/-- A letter or an underscore, followed by letters, digits and underscores. -/
def WellFormed (name : String) : Prop :=
  ∃ first rest, name.toList = first :: rest ∧ (first.isAlpha = true ∨ first = '_')
    ∧ ∀ char ∈ rest, char.isAlphanum = true ∨ char = '_'

/-- The test for identifiers looks at the first character and at all later ones. -/
theorem isIdentifier_iff (name : String) : isIdentifier name = true ↔ WellFormed name := by
  unfold isIdentifier WellFormed
  cases name.toList with
  | nil => simp [isIdentifierText]
  | cons first rest => simp [isIdentifierText, isStart, isPart]

/-- The names that a model with these inputs has for things of its own: the ready flag,
the output module, and for every input its module, its copy and the labels of its values. -/
def Generated (name : String) (inputs : List String) (inputRange : Nat) : Prop :=
  name = readyFlag ∨ name = outputModule ∨ ∃ input ∈ inputs,
    name = inputModule input ∨ name = seenVariable input
      ∨ ∃ value < inputRange, name = syncLabel input value

/-- Apart from the ready flag and the output module, a generated name has an underscore. -/
theorem Generated.underscore_mem {name : String} {inputs : List String} {inputRange : Nat}
    (generated : Generated name inputs inputRange) :
    name = readyFlag ∨ name = outputModule ∨ '_' ∈ name.toList := by
  rcases generated with rfl | rfl | ⟨input, -, rfl | rfl | ⟨value, -, rfl⟩⟩
  · exact .inl rfl
  · exact .inr (.inl rfl)
  · simp [inputModule]
  · simp [seenVariable]
  · simp [toList_syncLabel]

/-- Digits alone are read as the count that they write. -/
theorem readWord?_eq_some {digits : List Char} (nonempty : digits ≠ [])
    (all : ∀ char ∈ digits, char.isDigit = true) (word : Decimal.ofDigits digits < Word.limit) :
    Decimal.readWord? digits = some (Decimal.ofDigits digits) := by
  cases digits with
  | nil => exact (nonempty rfl).elim
  | cons first rest =>
    have unsigned : first ≠ '+' := by
      rintro rfl
      exact absurd (all '+' List.mem_cons_self) (by decide)
    have rule : Decimal.readWord? (first :: rest)
        = if (first :: rest).isEmpty || !(first :: rest).all Char.isDigit then none
          else Word.check? (Decimal.ofDigits (first :: rest)) := by
      unfold Decimal.readWord?
      split
      · next same => exact (unsigned (List.cons.inj same).1).elim
      · rfl
    rw [rule, if_neg, Tuple.check?_of_lt word]
    simpa using ⟨all first List.mem_cons_self, fun char member =>
      all char (List.mem_cons_of_mem first member)⟩

/-- Written digits stand for the count. -/
theorem ofDigits_toDigits (value : Nat) : Decimal.ofDigits (Nat.toDigits 10 value) = value := by
  have same : Decimal.ofDigits (Nat.toDigits 10 value)
      = Nat.ofDigitChars 10 (Nat.toDigits 10 value) 0 := by
    simp [Decimal.ofDigits, Decimal.digitValue, Nat.ofDigitChars_eq_foldl, Nat.mul_comm]
  rw [same, Nat.ofDigitChars_ten_toDigits]

/-- Written digits are read back. -/
theorem readWord?_toDigits {value : Nat} (word : value < Word.limit) :
    Decimal.readWord? (Nat.toDigits 10 value) = some value := by
  rw [readWord?_eq_some Nat.toDigits_ne_nil, ofDigits_toDigits]
  · exact fun char member => Nat.isDigit_of_mem_toDigits (by decide) (by decide) member
  · rwa [ofDigits_toDigits]

/-- A label of an input is recognised by writing the label again that its digits stand
for. -/
theorem isSyncLabel_iff {input name : String} {inputRange : Nat}
    (words : inputRange ≤ Word.limit) :
    isSyncLabel input name inputRange = true
      ↔ ∃ value < inputRange, name = syncLabel input value := by
  constructor
  · intro recognised
    unfold isSyncLabel at recognised
    split at recognised
    · next value _ =>
      rw [Bool.and_eq_true, decide_eq_true_eq, beq_iff_eq] at recognised
      exact ⟨value, recognised.1, recognised.2.symm⟩
    · cases recognised
  · rintro ⟨value, inside, rfl⟩
    have read : labelValue? input.toList (syncLabel input value).toList = some value := by
      rw [toList_syncLabel, labelValue?, if_pos (by simp)]
      simpa using readWord?_toDigits (inside.trans_le words)
    simp [isSyncLabel, read, inside]

/-- The test for generated names finds exactly these. -/
theorem isGenerated_iff {name : String} {inputs : List String} {inputRange : Nat}
    (words : inputRange ≤ Word.limit) :
    isGenerated name inputs inputRange = true ↔ Generated name inputs inputRange := by
  simp only [isGenerated, Generated, Bool.or_eq_true, beq_iff_eq, List.any_eq_true,
    isSyncLabel_iff words, or_assoc]

end Nonlocal.Identifier
