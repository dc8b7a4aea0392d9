import Nonlocal.Proofs.Identifier.Separation

/-!
# Generated names of different kinds

Generated names are told apart by their ends: copies end with `n`, labels with a digit,
modules of inputs start with `I`. The ready flag and the output module do neither. This
leaves two pairs of kinds whose names can be the same, since one puts its mark in front
of the input and the other behind: the module of one input may have the name of the copy
or of a label of another.
-/

namespace Nonlocal.Identifier

/-- The module of an input tells which input it is for. -/
theorem inputModule_injective : Function.Injective inputModule := by
  intro first second same
  have texts : "INPUT_".toList ++ first.toList = "INPUT_".toList ++ second.toList := by
    simpa [inputModule] using congrArg String.toList same
  exact String.toList_inj.mp (List.append_cancel_left texts)

/-- Modules of inputs start with the same letter. -/
theorem head?_inputModule (input : String) : (inputModule input).toList.head? = some 'I' := by
  simp [inputModule]

/-- Copies end with the same letter. -/
theorem getLast?_seenVariable (input : String) :
    (seenVariable input).toList.getLast? = some 'n' := by
  simp [seenVariable]

/-- Labels end with a digit. -/
theorem getLast?_syncLabel (input : String) (value : Nat) :
    ∃ digit, (syncLabel input value).toList.getLast? = some digit ∧ digit.isDigit = true := by
  obtain ⟨digit, last⟩ : ∃ digit, (Nat.toDigits 10 value).getLast? = some digit :=
    Option.isSome_iff_exists.mp (by simp [Nat.toDigits_ne_nil])
  refine ⟨digit, ?_, Nat.isDigit_of_mem_toDigits (by decide) (by decide)
    (List.mem_of_getLast? last)⟩
  rw [toList_syncLabel, List.getLast?_append, List.getLast?_cons, last]
  rfl

/-- A label is no name that ends with another character. -/
theorem syncLabel_ne {name : String} {char : Char} (ends : name.toList.getLast? = some char)
    (noDigit : char.isDigit = false) (input : String) (value : Nat) :
    syncLabel input value ≠ name := by
  rintro rfl
  obtain ⟨digit, last, isDigit⟩ := getLast?_syncLabel input value
  obtain rfl := Option.some.inj (last.symm.trans ends)
  rw [noDigit] at isDigit
  cases isDigit

/-- A module of an input is no name that starts with another character. -/
theorem inputModule_ne {name : String} {char : Char} (starts : name.toList.head? = some char)
    (other : char ≠ 'I') (input : String) : inputModule input ≠ name := by
  rintro rfl
  exact other (Option.some.inj (starts.symm.trans (head?_inputModule input)))

/-- A copy is no name that ends with another character. -/
theorem seenVariable_ne {name : String} {char : Char} (ends : name.toList.getLast? = some char)
    (other : char ≠ 'n') (input : String) : seenVariable input ≠ name := by
  rintro rfl
  exact other (Option.some.inj (ends.symm.trans (getLast?_seenVariable input)))

end Nonlocal.Identifier
