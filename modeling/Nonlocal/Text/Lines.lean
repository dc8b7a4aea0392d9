/-!
# Lines

`split` cuts a text at every separator. The lines of a text are its pieces
between line feeds; a carriage return in front of a line feed belongs to the
line's end and not to the line.
-/

namespace Nonlocal.Text

/-- The pieces of a text between separators. A text without a separator is one piece. -/
def split (separator : Char) : List Char → List (List Char)
  | [] => [[]]
  | char :: text =>
    if char = separator then [] :: split separator text
    else (split separator text).modifyHead (char :: ·)

/-- There is one piece more than there are separators. -/
theorem length_split (separator : Char) (text : List Char) :
    (split separator text).length = text.count separator + 1 := by
  induction text with
  | nil => rfl
  | cons char text inductionHypothesis =>
    by_cases separates : char = separator
    · simp [split, separates, inductionHypothesis]
    · simp [split, separates, inductionHypothesis]

/-- A line without the carriage return at its end. -/
def withoutReturn (line : List Char) : List Char :=
  if line.getLast? = some '\r' then line.dropLast else line

/-- The lines of a text whose last line is ended as well. -/
def lines (text : List Char) : List (List Char) := (split '\n' text).map withoutReturn

/-- White space, in and beyond ASCII. -/
def isWhite (char : Char) : Bool :=
  ('\t' ≤ char && char ≤ '\r') || char = ' ' || char = '\x85' || char = '\xA0' ||
    char = '\u1680' || ('\u2000' ≤ char && char ≤ '\u200A') || char = '\u2028' ||
    char = '\u2029' || char = '\u202F' || char = '\u205F' || char = '\u3000'

end Nonlocal.Text
