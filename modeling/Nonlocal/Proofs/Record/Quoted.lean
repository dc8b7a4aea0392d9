import Mathlib.Tactic.SplitIfs
import Nonlocal.Proofs.Record.Cursor
import Nonlocal.Record.Quoted

/-!
# Strings are read back

Every string is read back from its quoted form, whatever characters it has: an escape
stands for the character it was written for, and a character that is written as itself
neither ends the string nor starts an escape. So the quote that ends the reading is the
one that was written last.
-/

namespace Nonlocal.Record

/-- The escapes of the control characters have the values of these characters. -/
theorem hexUnit?_control : ∀ code < 0x20,
    hexUnit? '0' '0' (hexDigit (code / 16)) (hexDigit (code % 16)) = some code := by
  decide

section Strings

variable {whole read rest : List Char}

/-- A character that is written as itself is read as itself. -/
theorem readChars_plain {char : Char} (noQuote : char ≠ '"') (noEscape : char ≠ '\\')
    (shown : ¬char.toNat < 0x20) (isPart : (char :: rest).length ≤ whole.length) :
    readChars whole read (char :: rest) isPart
      = readChars whole (char :: read) rest (Nat.le_of_lt isPart) := by
  rw [readChars]
  · simp only [shown, if_false]
  · exact fun same => noQuote same
  · exact fun same => noEscape same

/-- An escape of one letter is read as the character it stands for. -/
theorem readChars_simple {letter char : Char} (known : simpleEscape? letter = some char)
    (isPart : ('\\' :: letter :: rest).length ≤ whole.length) :
    readChars whole read ('\\' :: letter :: rest) isPart
      = readChars whole (char :: read) rest
        (Nat.le_trans (Nat.le_add_right rest.length 2) isPart) := by
  have noUnit : letter ≠ 'u' := by rintro rfl; cases known
  rw [readChars, readEscape]
  · simp only [known]
    rfl
  · exact fun same => noUnit same

/-- An escape of a character's unit is read as the character. -/
theorem readChars_unit {a b c d char : Char} (known : hexUnit? a b c d = some char.toNat)
    (small : char.toNat < 0xD800)
    (isPart : ('\\' :: 'u' :: a :: b :: c :: d :: rest).length ≤ whole.length) :
    readChars whole read ('\\' :: 'u' :: a :: b :: c :: d :: rest) isPart
      = readChars whole (char :: read) rest
        (Nat.le_trans (Nat.le_add_right rest.length 6) isPart) := by
  have single : isTrailing char.toNat = false ∧ isLeading char.toNat = false := by
    simp only [isTrailing, isLeading, Bool.and_eq_false_iff, decide_eq_false_iff_not]
    omega
  rw [readChars, readEscape, readUnicode, readUnit]
  simp only [known, single, Bool.false_eq_true, if_false, Bool.not_false, if_true,
    Char.ofNat_toNat]
  rfl

/-- A character is read back from the way it is written. -/
theorem readChars_writeChar (char : Char)
    (isPart : (writeChar char ++ rest).length ≤ whole.length)
    (isPart' : rest.length ≤ whole.length) :
    readChars whole read (writeChar char ++ rest) isPart
      = readChars whole (char :: read) rest isPart' := by
  unfold writeChar
  split_ifs with quote escape backspace feed line carriage tab control
  iterate 7
    subst char
    exact readChars_simple rfl _
  · exact readChars_unit (hexUnit?_control char.toNat control) (by omega) _
  · exact readChars_plain quote escape control _

/-- The characters of a string are read back up to its closing quote. -/
theorem readChars_writeString (chars : List Char)
    (isPart : (chars.flatMap writeChar ++ '"' :: rest).length ≤ whole.length) :
    Gives (readChars whole read (chars.flatMap writeChar ++ '"' :: rest) isPart)
      (chars.reverse ++ read) rest := by
  induction chars generalizing read with
  | nil =>
    refine ⟨isPart, ?_⟩
    change readChars whole read ('"' :: rest) _ = _
    rw [readChars]
    rfl
  | cons char chars ih =>
    simp only [List.flatMap_cons, List.append_assoc] at isPart ⊢
    rw [readChars_writeChar char isPart (by simp at isPart ⊢; omega), List.reverse_cons,
      List.append_assoc]
    exact ih _

end Strings

/-- A string is read back after its opening quote. -/
theorem readString_writeString (chars rest : List Char) :
    Gives (readString (chars.flatMap writeChar ++ '"' :: rest)) chars rest := by
  obtain ⟨shorter, read⟩ := @readChars_writeString _ [] rest chars (length_le_self _)
  refine ⟨shorter, ?_⟩
  rw [readString, read]
  simp

end Nonlocal.Record
