import Nonlocal.Record.Failure

/-!
# Reading from left to right

A reader takes a text and returns a value with the rest of the text, which is
shorter than the text was. Blanks between the parts of a text are skipped.
-/

namespace Nonlocal.Record

/-- What is left of a text after at least one character. -/
abbrev Rest (text : List Char) := { rest : List Char // rest.length < text.length }

/-- What is left of a text, perhaps all of it. -/
abbrev Tail (text : List Char) := { tail : List Char // tail.length ≤ text.length }

/-- Every text is as long as itself. -/
theorem length_le_self (text : List Char) : text.length ≤ text.length := Nat.le_refl _

/-- All of a text. -/
def Tail.whole (text : List Char) : Tail text := ⟨text, length_le_self text⟩

/-- What is left of a text is a tail of it. -/
def Rest.toTail {text : List Char} (rest : Rest text) : Tail text :=
  ⟨rest.1, Nat.le_of_lt rest.2⟩

/-- A tail of a text is left after the character before the text. -/
def Tail.after {text : List Char} (tail : Tail text) (first : Char) : Rest (first :: text) :=
  ⟨tail.1, Nat.lt_succ_of_le tail.2⟩

/-- What is left of a text is left after the character before the text. -/
def Rest.after {text : List Char} (rest : Rest text) (first : Char) : Rest (first :: text) :=
  rest.toTail.after first

/-- A tail of a tail is a tail of the text. -/
def Tail.tail {text : List Char} (tail : Tail text) (later : Tail tail.1) : Tail text :=
  ⟨later.1, Nat.le_trans later.2 tail.2⟩

/-- What is left of a tail is left of the text. -/
def Tail.rest {text : List Char} (tail : Tail text) (rest : Rest tail.1) : Rest text :=
  ⟨rest.1, Nat.lt_of_lt_of_le rest.2 tail.2⟩

/-- A tail of what is left is left of the text. -/
def Rest.tail {text : List Char} (rest : Rest text) (tail : Tail rest.1) : Rest text :=
  ⟨tail.1, Nat.lt_of_le_of_lt tail.2 rest.2⟩

/-- What is left of what is left. -/
def Rest.rest {text : List Char} (rest : Rest text) (later : Rest rest.1) : Rest text :=
  ⟨later.1, Nat.lt_trans later.2 rest.2⟩

/-- The result of reading: a value and what is left. -/
abbrev Reading (α : Type) (text : List Char) := Except Failure (α × Rest text)

/-- A reader of values. -/
abbrev Reader (α : Type) := (text : List Char) → Reading α text

/-- Space, tab, line feed and carriage return. -/
def isBlank (char : Char) : Bool :=
  char = ' ' || char = '\t' || char = '\n' || char = '\r'

/-- Skipping leaves a text that is not longer. -/
theorem length_dropWhile_le (test : Char → Bool) (text : List Char) :
    (text.dropWhile test).length ≤ text.length :=
  (List.dropWhile_sublist test).length_le

/-- The text from its first character that fails a test. -/
def Tail.dropWhile (test : Char → Bool) (text : List Char) : Tail text :=
  ⟨text.dropWhile test, length_dropWhile_le test text⟩

/-- The text from its first character that is no blank. -/
def skipBlanks (text : List Char) : Tail text := Tail.dropWhile isBlank text

/-- The first character that is no blank, with what is left after it. -/
def next? (text : List Char) : Option (Char × Rest text) :=
  match skipBlanks text with
  | ⟨[], _⟩ => none
  | ⟨char :: rest, isTail⟩ => some (char, ⟨rest, isTail⟩)

/-- Reads the given letters; the end of the text and other characters fail. -/
def readLetters : (letters text : List Char) → Except Failure (Tail text)
  | [], text => .ok (Tail.whole text)
  | _ :: _, [] => .error .truncated
  | letter :: letters, char :: text =>
    if char = letter then
      match readLetters letters text with
      | .ok tail => .ok (tail.after char).toTail
      | .error failure => .error failure
    else .error .malformed

end Nonlocal.Record
