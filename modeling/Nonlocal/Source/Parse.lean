import Nonlocal.Source.Grammar
import Nonlocal.Source.Location
import Nonlocal.Source.Matching
import Nonlocal.Source.Program

/-!
# Reading a program

A source that matches the grammar is read item by item in its own order. The
first item that repeats a declaration or holds a number that cannot be used is
the error; whether a declaration is missing is looked at only after that.
-/

namespace Nonlocal.Source

/-- The declarations that a program needs once. -/
inductive Section where
  | input
  | output
  | range
  deriving DecidableEq, Repr

/-- The name of a declaration in messages. -/
def Section.name : Section → String
  | .input => "input"
  | .output => "output"
  | .range => "range"

/-- Why a numeral cannot be used. -/
inductive NumberIssue where
  | tooLarge
  | zeroDenominator
  deriving DecidableEq, Repr

/-- The wording of a number issue. -/
def NumberIssue.message : NumberIssue → String
  | .tooLarge => "number too large to fit in target type"
  | .zeroDenominator => "zero denominator"

/-- Why a source is no program. -/
inductive ParseError where
  | syntaxError (message : String) (span : Span)
  | missingSection (name : Section)
  | duplicate (name : Section) (span : Span)
  | invalidNumber (literal : List Char) (issue : NumberIssue) (span : Span)
  deriving DecidableEq, Repr

namespace ParseError

/-- The wording of a parse error. -/
def message : ParseError → String
  | .syntaxError message _ => s!"Syntax error: {message}"
  | .missingSection name => s!"Missing required section: {name.name}"
  | .duplicate name _ => s!"Duplicate definition: {name.name}"
  | .invalidNumber literal issue _ =>
    s!"Invalid number '{String.ofList literal}': {issue.message}"

/-- The code under which a parse error is documented. -/
def code : ParseError → String
  | .syntaxError .. => "qgrady::parse::syntax"
  | .missingSection _ => "qgrady::parse::missing_section"
  | .duplicate .. => "qgrady::parse::duplicate"
  | .invalidNumber .. => "qgrady::parse::number"

/-- What to do about a parse error, where there is something to say. -/
def help : ParseError → Option String
  | .missingSection _ =>
    some ("a box needs `input = [...]`, `output = [...]` and `range = <in> -> <out>` " ++
      "before its rows")
  | _ => none

/-- The remark on the place of a parse error. -/
def label? : ParseError → Option Label
  | .syntaxError _ span => some ⟨span, "here"⟩
  | .missingSection _ => none
  | .duplicate _ span => some ⟨span, "duplicate"⟩
  | .invalidNumber _ _ span => some ⟨span, "not a usable number"⟩

/-- The report of a parse error. -/
def diagnostic (error : ParseError) : Diagnostic where
  message := error.message
  code := some error.code
  help := error.help
  labels := error.label?.toList

/-- The error at the farthest failure of a source. The span is one byte long, or empty
at the end of the source. -/
def ofFailures (source : List Char) (failures : Failures) : ParseError :=
  let mistake := Mistake.locate source failures.offset failures.rules
  .syntaxError mistake.message
    ⟨failures.offset, min (failures.offset + 1) (Text.utf8Length source)⟩

end ParseError

/-- The bytes of a part. -/
def Node.span (node : Node) : Span := ⟨node.start, node.stop⟩

/-- The value of an integer, which has to be a word. -/
def readInteger (node : Node) : Except ParseError Nat :=
  match Word.check? (Decimal.ofDigits node.text) with
  | some value => .ok value
  | none => .error (.invalidNumber node.text .tooLarge node.span)

/-- The names in a declaration. -/
def readNames (node : Node) : Except ParseError (List (Spanned String)) :=
  match node.childrenOf .names with
  | [] => .error (.syntaxError "expected a name list" node.span)
  | list :: _ =>
    .ok ((list.childrenOf .identifier).map fun name => ⟨String.ofList name.text, name.span⟩)

/-- The ranges in a declaration. -/
def readRanges (node : Node) : Except ParseError (Spanned Ranges) :=
  match node.childrenOf .integer with
  | [] => .error (.syntaxError "expected an input range" node.span)
  | [_] => .error (.syntaxError "expected an output range" node.span)
  | input :: output :: _ => do
    let input ← readInteger input
    let output ← readInteger output
    pure ⟨⟨input, output⟩, node.span⟩

/-- The value of a decimal numeral. -/
def decimalLiteral (text : List Char) : Literal :=
  let (negative, magnitude) := match text with
    | '-' :: rest => (true, rest)
    | other => (false, other)
  let whole := magnitude.takeWhile Char.isDigit
  let fraction := (magnitude.dropWhile Char.isDigit).drop 1
  .decimal negative (Decimal.ofDigits (whole ++ fraction)) fraction.length

/-- The value of a fraction inside a cell. The numerator is read before the
denominator; that the denominator is 0 is noticed last and blamed on the cell. -/
def readFraction (cell fraction : Node) : Except ParseError Literal :=
  match fraction.children with
  | numerator :: denominator :: _ => do
    let numerator ← readInteger numerator
    let denominator ← readInteger denominator
    if denominator = 0 then .error (.invalidNumber cell.text .zeroDenominator cell.span)
    else pure (.fraction numerator denominator)
  | [_] => .error (.syntaxError "expected a denominator" cell.span)
  | [] => .error (.syntaxError "expected a numerator" cell.span)

/-- The value of a cell. -/
def readCell (cell : Node) : Except ParseError Literal :=
  match cell.children with
  | [] => .error (.syntaxError "expected a probability" cell.span)
  | value :: _ =>
    if value.rule = .fraction then readFraction cell value
    else .ok (decimalLiteral value.text)

/-- The values of a row. -/
def readRow (node : Node) : Except ParseError (Spanned (List Literal)) := do
  let values ← (node.childrenOf .probability).mapM readCell
  pure ⟨values, node.span⟩

/-- What has been read of a program. -/
structure Draft where
  inputs : Option (List (Spanned String)) := none
  outputs : Option (List (Spanned String)) := none
  ranges : Option (Spanned Ranges) := none
  /-- The rows, the last one first. -/
  rows : List (Spanned (List Literal)) := []

namespace Draft

/-- Reads one more item. That an item repeats a declaration is noticed before anything
in it. -/
def readItem (draft : Draft) (item : Node) : Except ParseError Draft :=
  match item.rule with
  | .inputs =>
    if draft.inputs.isSome then .error (.duplicate .input item.span)
    else do
      let names ← readNames item
      pure { draft with inputs := some names }
  | .outputs =>
    if draft.outputs.isSome then .error (.duplicate .output item.span)
    else do
      let names ← readNames item
      pure { draft with outputs := some names }
  | .ranges =>
    if draft.ranges.isSome then .error (.duplicate .range item.span)
    else do
      let ranges ← readRanges item
      pure { draft with ranges := some ranges }
  | .row => do
    let row ← readRow item
    pure { draft with rows := row :: draft.rows }
  | _ => .ok draft

/-- The program, if no declaration is missing. -/
def program (draft : Draft) (span : Span) : Except ParseError Program :=
  match draft.inputs, draft.outputs, draft.ranges with
  | none, _, _ => .error (.missingSection .input)
  | _, none, _ => .error (.missingSection .output)
  | _, _, none => .error (.missingSection .range)
  | some inputs, some outputs, some ranges =>
    .ok ⟨span, inputs, outputs, ranges, draft.rows.reverse⟩

end Draft

/-- The program of a part that matches the whole grammar. -/
def readProgram (node : Node) : Except ParseError Program := do
  let draft ← node.children.foldlM Draft.readItem {}
  draft.program node.span

/-- Reads a source. -/
def parse (source : List Char) : Except ParseError Program :=
  match Grammar.program.runAll source with
  | ⟨failures, none⟩ => .error (.ofFailures source failures)
  | ⟨_, some (node :: _, _)⟩ => readProgram node
  | ⟨_, some ([], _)⟩ => .error (.syntaxError "empty parse tree" ⟨0, 0⟩)

end Nonlocal.Source
