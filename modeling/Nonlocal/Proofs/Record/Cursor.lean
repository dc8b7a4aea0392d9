import Nonlocal.Record.Cursor

/-!
# What a reader gives

A reader is right if it gives the value that was written and leaves exactly what follows.
That what is left is shorter is part of every reading; which proof says so does not
matter.
-/

namespace Nonlocal.Record

variable {α : Type} {whole rest : List Char}

/-- The reading succeeds with a value and leaves `rest`. -/
def Gives (reading : Reading α whole) (value : α) (rest : List Char) : Prop :=
  ∃ shorter, reading = .ok (value, ⟨rest, shorter⟩)

/-- What may follow a value in a list or a mapping. -/
def Delimited (text : List Char) : Prop :=
  ∃ first later, text = first :: later ∧ (first = ',' ∨ first = ']' ∨ first = '\x7d')

/-- A comma may follow a value. -/
theorem delimited_comma (later : List Char) : Delimited (',' :: later) :=
  ⟨',', later, rfl, .inl rfl⟩

/-- The end of a list may follow a value. -/
theorem delimited_bracket (later : List Char) : Delimited (']' :: later) :=
  ⟨']', later, rfl, .inr (.inl rfl)⟩

/-- The end of a mapping may follow a value. -/
theorem delimited_brace (later : List Char) : Delimited ('\x7d' :: later) :=
  ⟨'\x7d', later, rfl, .inr (.inr rfl)⟩

/-- There is nothing to skip before a character that is no blank. -/
theorem skipBlanks_cons {char : Char} (shown : isBlank char = false) :
    skipBlanks (char :: rest) = Tail.whole (char :: rest) :=
  Subtype.ext (List.dropWhile_cons_of_neg (by simp [shown]))

/-- The next character is the first one if that is no blank. -/
theorem next?_cons {char : Char} (shown : isBlank char = false) :
    next? (char :: rest) = some (char, ⟨rest, Nat.lt_succ_self _⟩) := by
  rw [next?, skipBlanks_cons shown]
  rfl

/-- There is no next character at the end. -/
theorem next?_nil : next? [] = none := rfl

end Nonlocal.Record
