import Nonlocal.Record.Number
import Nonlocal.Record.Quoted

/-!
# Skipping a value

The value of an unknown field is passed over. Its form is checked, its content
is not. The enclosing lists and mappings are kept on a stack, so values may be
nested without limit.
-/

namespace Nonlocal.Record

/-- What encloses a value. -/
inductive Enclosure where
  | list
  | mapping
  deriving DecidableEq, Repr

/-- What is expected next while a value is skipped. -/
inductive Expected where
  | value
  | afterValue
  /-- An element or the end of a list. -/
  | firstElement
  /-- A key or the end of a mapping. -/
  | firstKey
  | key
  deriving DecidableEq, Repr

/-- The character that opens a mapping. -/
def openingBrace : Char := '\x7b'

/-- The character that closes a mapping. -/
def closingBrace : Char := '\x7d'

/-- Skips the letters of a constant after its first letter. -/
def skipLetters (letters : String) (first : Char) (text : List Char) :
    Except Failure (Rest (first :: text)) :=
  match readLetters letters.toList text with
  | .ok tail => .ok (tail.after first)
  | .error failure => .error failure

/-- Skips a value that is no list and no mapping. -/
def skipScalar (first : Char) (text : List Char) : Except Failure (Rest (first :: text)) :=
  if first = 'n' then skipLetters "ull" first text
  else if first = 't' then skipLetters "rue" first text
  else if first = 'f' then skipLetters "alse" first text
  else if first = '-' || first.isDigit then skipNumber (first :: text)
  else if first = '"' then
    match skipString text with
    | .ok rest => .ok (rest.after first)
    | .error failure => .error failure
  else .error .malformed

/-- Skips a key and the colon after it. -/
def skipKey (first : Char) (text : List Char) : Except Failure (Rest (first :: text)) :=
  if first = '"' then
    match skipString text with
    | .error failure => .error failure
    | .ok rest =>
      match next? rest.1 with
      | none => .error .truncated
      | some (char, later) =>
        if char = ':' then .ok ((rest.rest later).after first) else .error .malformed
  else .error .malformed

/-- What is expected once the next character is known: a list or a mapping that does
not end at once starts with an element or a key. -/
def Expected.settle (expected : Expected) (next : Char) : Expected :=
  match expected with
  | .firstElement => if next = ']' then .firstElement else .value
  | .firstKey => if next = closingBrace then .firstKey else .key
  | other => other

/-- Skips on from a place inside `whole` until the outermost value is complete. -/
def skipOn (whole : List Char) (expected : Expected) (stack : List Enclosure)
    (text : List Char) (isPart : text.length ≤ whole.length) : Except Failure (Tail whole) :=
  if expected = .afterValue && stack.isEmpty then .ok ⟨text, isPart⟩
  else
    match skipBlanks text with
    | ⟨[], _⟩ => .error .truncated
    | ⟨first :: rest, isTail⟩ =>
      have isPlace : (first :: rest).length ≤ whole.length := Nat.le_trans isTail isPart
      have isLater : rest.length ≤ whole.length := Nat.le_of_lt isPlace
      match expected.settle first with
      | .value =>
        if first = '[' then skipOn whole .firstElement (.list :: stack) rest isLater
        else if first = openingBrace then
          skipOn whole .firstKey (.mapping :: stack) rest isLater
        else
          match skipScalar first rest with
          | .error failure => .error failure
          | .ok later =>
            skipOn whole .afterValue stack later.1
              (Nat.le_of_lt (Nat.lt_of_lt_of_le later.2 isPlace))
      | .key =>
        match skipKey first rest with
        | .error failure => .error failure
        | .ok later =>
          skipOn whole .value stack later.1
            (Nat.le_of_lt (Nat.lt_of_lt_of_le later.2 isPlace))
      | .afterValue =>
        match stack.head? with
        | some .mapping =>
          if first = ',' then skipOn whole .key stack rest isLater
          else if first = closingBrace then
            skipOn whole .afterValue stack.tail rest isLater
          else .error .malformed
        | _ =>
          if first = ',' then skipOn whole .value stack rest isLater
          else if first = ']' then skipOn whole .afterValue stack.tail rest isLater
          else .error .malformed
      | .firstElement | .firstKey => skipOn whole .afterValue stack.tail rest isLater
termination_by text.length
decreasing_by
  any_goals exact isTail
  all_goals exact Nat.lt_of_lt_of_le later.2 isTail

/-- Skips a value. -/
def skipValue (text : List Char) : Except Failure (Tail text) :=
  skipOn text .value [] text (length_le_self text)

end Nonlocal.Record
