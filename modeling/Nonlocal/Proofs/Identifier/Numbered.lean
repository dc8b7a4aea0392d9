import Nonlocal.Proofs.Validity.Demands

/-!
# Numbered variables

Variables `x0`, `x1`, … for the inputs and `a0`, `a1`, … for the outputs can be those of a
model, however many they are: no reserved word starts like them, and only the ready flag
and the output module are generated without an underscore.
-/

namespace Nonlocal

/-- A letter with each of the first numbers. -/
def Identifier.numbered (letter : String) (count : Nat) : List String :=
  (List.range count).map fun number => letter ++ toString number

namespace Box

open Identifier (numbered)

variable {α : Type} {box : Box α} {inputs outputs : Nat}

/-- A letter is put before each number only once. -/
theorem nodup_numbered (letter : String) (count : Nat) : (numbered letter count).Nodup := by
  refine List.nodup_range.map fun first second same => ?_
  have digits : Nat.toDigits 10 first = Nat.toDigits 10 second := by
    simpa using congrArg String.toList same
  rw [← Nat.ofDigitChars_ten_toDigits (n := first), digits, Nat.ofDigitChars_ten_toDigits]

variable (numberedInputs : box.inputs = numbered "x" inputs)
  (numberedOutputs : box.outputs = numbered "a" outputs)

include numberedInputs numberedOutputs

/-- A variable of the box is a letter and a number. -/
theorem exists_of_mem_numbered {name : String} (member : name ∈ box.declared) :
    ∃ letter number, (letter = 'x' ∨ letter = 'a')
      ∧ name.toList = letter :: Nat.toDigits 10 number := by
  rw [declared, numberedInputs, numberedOutputs] at member
  rcases List.mem_append.mp member with isInput | isOutput
  · obtain ⟨number, -, rfl⟩ := List.mem_map.mp isInput
    exact ⟨'x', number, .inl rfl, by simp⟩
  · obtain ⟨number, -, rfl⟩ := List.mem_map.mp isOutput
    exact ⟨'a', number, .inr rfl, by simp⟩

/-- Numbered variables can be those of a model. -/
theorem named_of_numbered : box.Named where
  wellFormed name member := by
    obtain ⟨letter, number, isLetter, characters⟩ :=
      exists_of_mem_numbered numberedInputs numberedOutputs member
    refine ⟨letter, _, characters, Or.inl ?_, fun char digit => Or.inl ?_⟩
    · rcases isLetter with rfl | rfl <;> decide
    · have isDigit := Nat.isDigit_of_mem_toDigits (by decide) (by decide) digit
      simp [Char.isAlphanum, isDigit]
  unreserved name member reserved := by
    obtain ⟨letter, number, isLetter, characters⟩ :=
      exists_of_mem_numbered numberedInputs numberedOutputs member
    have starts : ∀ word ∈ Identifier.reservedWords,
        word.toList.head? ≠ some 'x' ∧ word.toList.head? ≠ some 'a' := by decide
    have start : name.toList.head? = some letter := by rw [characters]; rfl
    rcases isLetter with rfl | rfl
    · exact (starts name reserved).1 start
    · exact (starts name reserved).2 start
  once := by
    rw [declared, numberedInputs, numberedOutputs]
    refine List.nodup_append.mpr ⟨nodup_numbered "x" inputs, nodup_numbered "a" outputs, ?_⟩
    rintro first isInput second isOutput rfl
    obtain ⟨_, -, rfl⟩ := List.mem_map.mp isInput
    obtain ⟨_, -, same⟩ := List.mem_map.mp isOutput
    simpa using congrArg String.toList same
  ungenerated name member generated := by
    obtain ⟨letter, number, isLetter, characters⟩ :=
      exists_of_mem_numbered numberedInputs numberedOutputs member
    have start : name.toList.head? = some letter := by rw [characters]; rfl
    rcases generated.underscore_mem with rfl | rfl | underscore
    · rcases isLetter with rfl | rfl <;> cases start
    · rcases isLetter with rfl | rfl <;> cases start
    · rw [characters, List.mem_cons] at underscore
      rcases underscore with rfl | inDigits
      · simp at isLetter
      · exact Nat.underscore_not_in_toDigits inDigits

end Box

end Nonlocal
