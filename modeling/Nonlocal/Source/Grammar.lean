import Nonlocal.Source.Pattern

/-!
# The box language

A source declares inputs, outputs and ranges in any order and then lists its
rows. Between the tokens there may be blanks and comments; inside a name or a
numeral there may not.
-/

namespace Nonlocal.Source.Grammar

open Pattern

/-- Space, tab, carriage return and line feed. -/
def isBlank (char : Char) : Bool :=
  char = ' ' || char = '\t' || char = '\r' || char = '\n'

/-- A pattern for the given text. -/
def literal (text : String) : Pattern := exactly text.toList

/-- A comment to the end of the line. -/
def lineComment : Pattern := both (literal "//") (many (one fun char => char != '\n'))

/-- A comment that has to be closed. -/
def blockComment : Pattern :=
  both (literal "/*") (both (many (both (notBefore (literal "*/")) (one fun _ => true)))
    (literal "*/"))

/-- Blanks and comments. -/
def gap : Pattern := many (either (one isBlank) (either lineComment blockComment))

/-- Patterns one after another, with gaps between them. -/
def spaced : List Pattern → Pattern
  | [] => exactly []
  | [last] => last
  | first :: second :: rest => both first (both gap (spaced (second :: rest)))

/-- A pattern as often as it matches, with gaps between the matches. -/
def manySpaced (body : Pattern) : Pattern := maybe (both body (many (both gap body)))

/-- Items separated by commas in brackets. -/
def bracketed (item : Pattern) : Pattern :=
  spaced [literal "[", maybe (spaced [item, manySpaced (spaced [literal ",", item])]),
    literal "]"]

/-- A digit. -/
def digit : Pattern := one Char.isDigit

/-- At least one digit. -/
def digits : Pattern := both digit (many digit)

/-- A row of digits. -/
def integer : Pattern := named .integer digits

/-- A decimal numeral, perhaps with a sign. -/
def number : Pattern :=
  named .number (both (maybe (literal "-"))
    (either (both digits (maybe (both (literal ".") (many digit))))
      (both (literal ".") digits)))

/-- A quotient of two integers. -/
def fraction : Pattern := named .fraction (spaced [integer, literal "/", integer])

/-- A cell of a row. -/
def probability : Pattern := named .probability (either fraction number)

/-- A character of a name after the first. -/
def namePart : Pattern := one fun char => char.isAlphanum || char == '_'

/-- A word that is not the beginning of a longer name. -/
def wholeWord (word : String) : Pattern := both (literal word) (notBefore namePart)

/-- A word that opens a declaration. -/
def keyword : Pattern :=
  either (wholeWord "input") (either (wholeWord "output") (wholeWord "range"))

/-- A name, which is no keyword. -/
def identifier : Pattern :=
  named .identifier (both (notBefore keyword)
    (both (one fun char => char.isAlpha || char == '_') (many namePart)))

/-- A list of names. -/
def names : Pattern := named .names (bracketed identifier)

/-- The declaration of the inputs. -/
def inputs : Pattern :=
  named .inputs (spaced [named .inputWord (wholeWord "input"), literal "=", names, literal ";"])

/-- The declaration of the outputs. -/
def outputs : Pattern :=
  named .outputs
    (spaced [named .outputWord (wholeWord "output"), literal "=", names, literal ";"])

/-- The declaration of the ranges. -/
def ranges : Pattern :=
  named .ranges (spaced [named .rangeWord (wholeWord "range"), literal "=", integer,
    literal "->", integer, literal ";"])

/-- A declaration of any kind. -/
def declaration : Pattern := either inputs (either outputs ranges)

/-- A row of the matrix. -/
def row : Pattern :=
  named .row (spaced [bracketed probability, literal ";"])

/-- A whole source. -/
def program : Pattern :=
  named .program (spaced [exactly [], manySpaced declaration, manySpaced row,
    named .endOfInput finish])

end Nonlocal.Source.Grammar
