import Nonlocal.Identifier
import Nonlocal.Source.Grammar
import Nonlocal.Source.Program

/-!
# The box language

A document is what a source is to say, made of pieces that cannot be ill-formed: names,
digits, numerals. It is written as a row of tokens, which a source lays out with gaps of
blanks and comments before, between and after them. What the document says is a content:
names, ranges and literals without any place.
-/

namespace Nonlocal.Source

namespace Language

/-- A nonempty row of digits. -/
structure Digits where
  chars : List Char
  nonempty : chars ≠ []
  digits : ∀ char ∈ chars, char.isDigit = true

/-- An identifier that opens no header. -/
structure Name where
  text : String
  identifier : Identifier.isIdentifier text = true
  free : text ∉ ["input", "output", "range"]

/-- A decimal numeral with at least one digit, perhaps with a sign and with a point, before
and after which there may be no digits. -/
structure Numeral where
  negative : Bool
  whole : List Char
  /-- The digits after the point, if there is a point. -/
  fraction? : Option (List Char)
  digits : ∀ char ∈ whole ++ fraction?.getD [], char.isDigit = true
  nonempty : whole ++ fraction?.getD [] ≠ []

/-- The characters of a numeral. -/
def Numeral.chars (numeral : Numeral) : List Char :=
  (if numeral.negative then ['-'] else []) ++ numeral.whole
    ++ (numeral.fraction?.map ('.' :: ·)).getD []

/-- A cell of a row. -/
inductive Cell where
  | decimal (numeral : Numeral)
  | quotient (numerator denominator : Digits)

/-- A declaration at the head of a document. -/
inductive Header where
  | inputs (names : List Name)
  | outputs (names : List Name)
  | ranges (input output : Digits)

/-- Headers and the rows after them. -/
structure Document where
  headers : List Header
  rows : List (List Cell)

/-- The tokens of items that are listed in brackets with commas between them. -/
def listed : List (List (List Char)) → List (List Char)
  | [] => [['['], [']']]
  | first :: rest => ['['] :: first ++ rest.flatMap ([','] :: ·) ++ [[']']]

/-- The tokens of a name. -/
def Name.tokens (name : Name) : List (List Char) := [name.text.toList]

/-- The tokens of a cell. -/
def Cell.tokens : Cell → List (List Char)
  | .decimal numeral => [numeral.chars]
  | .quotient numerator denominator => [numerator.chars, ['/'], denominator.chars]

/-- The tokens of a header. -/
def Header.tokens : Header → List (List Char)
  | .inputs names => "input".toList :: ['='] :: listed (names.map Name.tokens) ++ [[';']]
  | .outputs names => "output".toList :: ['='] :: listed (names.map Name.tokens) ++ [[';']]
  | .ranges input output =>
    ["range".toList, ['='], input.chars, ['-', '>'], output.chars, [';']]

/-- The tokens of a row. -/
def rowTokens (cells : List Cell) : List (List Char) :=
  listed (cells.map Cell.tokens) ++ [[';']]

/-- The tokens of a document. -/
def Document.tokens (document : Document) : List (List Char) :=
  document.headers.flatMap Header.tokens ++ document.rows.flatMap rowTokens

/-- Going over a gap leads from the beginning of the first text to the second. A gap is made
of blanks, of comments that are closed, and of comments to the end of a line; only at the
end of the text need such a line not end. -/
inductive Skips : List Char → List Char → Prop where
  | nothing {text : List Char} : Skips text text
  | blank {char : Char} {text rest : List Char} (blank : Grammar.isBlank char = true)
      (further : Skips text rest) : Skips (char :: text) rest
  | line {body text rest : List Char} (oneLine : '\n' ∉ body) (further : Skips text rest) :
      Skips ('/' :: '/' :: body ++ '\n' :: text) rest
  | block {body text rest : List Char} (unclosed : ¬ ['*', '/'] <:+: body)
      (further : Skips text rest) : Skips ('/' :: '*' :: body ++ '*' :: '/' :: text) rest
  | lastLine {body : List Char} (oneLine : '\n' ∉ body) : Skips ('/' :: '/' :: body) []

/-- A text lays tokens out, with a gap before, between and after them, and goes on with a rest.
After a slash the gap does not begin with another one. -/
inductive Laid : List (List Char) → List Char → List Char → Prop where
  | nil {text rest : List Char} (gap : Skips text rest) : Laid [] text rest
  | cons {token text after rest : List Char} {tokens : List (List Char)}
      (gap : Skips text (token ++ after)) (slash : token = ['/'] → after.head? ≠ some '/')
      (further : Laid tokens after rest) : Laid (token :: tokens) text rest

/-- What a program says, without the places where it says so. -/
structure Content where
  inputs : List String
  outputs : List String
  ranges : Ranges
  rows : List (List Literal)

/-- The number that digits write, if it is a word. -/
def Digits.word? (digits : Digits) : Option Nat := Word.check? (Decimal.ofDigits digits.chars)

/-- The ranges that two rows of digits write, if both are words. -/
def ranges? (input output : Digits) : Option Ranges := do
  let input ← input.word?
  let output ← output.word?
  some ⟨input, output⟩

/-- The literal that a cell writes. A quotient has words on both sides, and no zero below. -/
def Cell.literal? : Cell → Option Literal
  | .decimal numeral =>
    let fraction := numeral.fraction?.getD []
    some (.decimal numeral.negative (Decimal.ofDigits (numeral.whole ++ fraction)) fraction.length)
  | .quotient numerator denominator => do
    let numerator ← numerator.word?
    let denominator ← denominator.word?
    if denominator = 0 then none else some (.fraction numerator denominator)

/-- The inputs that a header declares. -/
def Header.inputs? : Header → Option (List String)
  | .inputs names => some (names.map Name.text)
  | _ => none

/-- The outputs that a header declares. -/
def Header.outputs? : Header → Option (List String)
  | .outputs names => some (names.map Name.text)
  | _ => none

/-- The ranges that a header declares. -/
def Header.ranges? : Header → Option (Digits × Digits)
  | .ranges input output => some (input, output)
  | _ => none

/-- The element of a list that has no other. -/
def only? {α : Type} : List α → Option α
  | [element] => some element
  | _ => none

/-- What a document says: it has one header of each kind, in any order, and all its integers
can be used. -/
def Document.content? (document : Document) : Option Content := do
  let inputs ← only? (document.headers.filterMap Header.inputs?)
  let outputs ← only? (document.headers.filterMap Header.outputs?)
  let (input, output) ← only? (document.headers.filterMap Header.ranges?)
  let ranges ← ranges? input output
  let rows ← document.rows.mapM (·.mapM Cell.literal?)
  some ⟨inputs, outputs, ranges, rows⟩

end Language

/-- What the program says, without the places where it says so. -/
def Program.content (program : Program) : Language.Content where
  inputs := program.inputs.map (·.node)
  outputs := program.outputs.map (·.node)
  ranges := program.ranges.node
  rows := program.rows.map (·.node)

end Nonlocal.Source
