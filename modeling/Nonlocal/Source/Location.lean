import Nonlocal.Diagnostic
import Nonlocal.Source.Pattern
import Nonlocal.Text.Utf8

/-!
# Where a source goes wrong

A syntax error is shown with its line, a mark under the place, and the parts
that could have stood there. Lines end with a line feed, columns count
characters, and both start at 1. The line's own end is shown only if that is
the place.
-/

namespace Nonlocal.Source

/-- A place in a source that does not match, and what was expected there. -/
structure Mistake where
  /-- Number of bytes before the place. -/
  offset : Nat
  line : Nat
  column : Nat
  /-- The line as it is shown. -/
  shown : List Char
  expected : List Rule
  deriving DecidableEq, Repr

namespace Mistake

/-- The characters up to and including the first line feed. -/
def throughLineEnd (text : List Char) : List Char :=
  text.takeWhile (· != '\n') ++ (text.dropWhile (· != '\n')).take 1

/-- A character of a line end as it is shown. -/
def visibleEnd (char : Char) : Char :=
  if char = '\r' then '␍' else if char = '\n' then '␊' else char

/-- Whether a character belongs to a line end. -/
def isLineEnd (char : Char) : Bool := char == '\r' || char == '\n'

/-- The line around a place as it is shown. -/
def shownLine (lineStart after : List Char) : List Char :=
  let line := lineStart ++ throughLineEnd after
  if (after.head?.map isLineEnd).getD false then line.map visibleEnd
  else line.filter fun char => !isLineEnd char

/-- The place with the given number of bytes before it. -/
def locate (source : List Char) (offset : Nat) (expected : List Rule) : Mistake :=
  let (before, after) := Text.splitBytes offset source
  let lineStart := (before.reverse.takeWhile (· != '\n')).reverse
  { offset := offset
    line := before.count '\n' + 1
    column := lineStart.length + 1
    shown := shownLine lineStart after
    expected := Rule.all.filter expected.contains }

/-- A list of alternatives. -/
def alternatives : List String → String
  | [] => ""
  | [only] => only
  | [first, second] => first ++ " or " ++ second
  | many => ", ".intercalate many.dropLast ++ ", or " ++ many.getLastD ""

/-- What is put under the characters before the place. -/
def padding (shown : List Char) (column : Nat) : List Char :=
  (shown.take (column - 1)).map fun char => if char = '\t' then '\t' else ' '

/-- The picture of a mistake: the line, the mark and the expectations. -/
def message (mistake : Mistake) : String :=
  let number := toString mistake.line
  let margin := String.ofList (List.replicate number.length ' ')
  "\n".intercalate [
    s!"{margin}--> {number}:{mistake.column}",
    s!"{margin} |",
    s!"{number} | {String.ofList mistake.shown}",
    s!"{margin} | {String.ofList (padding mistake.shown mistake.column)}^---",
    s!"{margin} |",
    s!"{margin} = expected {alternatives (mistake.expected.map Rule.name)}"]

end Mistake

end Nonlocal.Source
