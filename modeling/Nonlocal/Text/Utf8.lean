/-!
# Bytes of characters

Places in a text are counted in bytes of its UTF-8 form. `splitBytes` cuts a
text at a place; a place inside a character counts as the end of that character.
-/

namespace Nonlocal.Text

/-- Number of bytes of a text in UTF-8. -/
def utf8Length : List Char → Nat
  | [] => 0
  | char :: text => char.utf8Size + utf8Length text

@[simp]
theorem utf8Length_nil : utf8Length [] = 0 := rfl

@[simp]
theorem utf8Length_cons (char : Char) (text : List Char) :
    utf8Length (char :: text) = char.utf8Size + utf8Length text := rfl

@[simp]
theorem utf8Length_append (first second : List Char) :
    utf8Length (first ++ second) = utf8Length first + utf8Length second := by
  induction first with
  | nil => simp
  | cons char text inductionHypothesis =>
    simp only [List.cons_append, utf8Length_cons, inductionHypothesis, Nat.add_assoc]

/-- Continues a cut: `passed` holds the characters before the text, the last one
first. -/
def splitBytesFrom (passed : List Char) : (bytes : Nat) → List Char → List Char × List Char
  | 0, text => (passed.reverse, text)
  | _ + 1, [] => (passed.reverse, [])
  | bytes + 1, char :: text =>
    splitBytesFrom (char :: passed) (bytes + 1 - char.utf8Size) text

/-- The characters that start within the first bytes, and those that do not. -/
def splitBytes (bytes : Nat) (text : List Char) : List Char × List Char :=
  splitBytesFrom [] bytes text

end Nonlocal.Text
