/-!
# Patterns of source texts

A pattern is read greedily from left to right: an alternative is tried only if
the ones before it fail, and a repetition takes as much as it can and never
gives any of it back. Named patterns are the parts of a source that messages
mention and from which a program is built.
-/

namespace Nonlocal.Source

/-- The named parts of a source. -/
inductive Rule where
  | endOfInput
  | program
  | inputs
  | outputs
  | ranges
  | names
  | row
  | probability
  | fraction
  | number
  | integer
  | inputWord
  | outputWord
  | rangeWord
  | identifier
  deriving DecidableEq, Repr

/-- The parts in the order in which messages list them. -/
def Rule.all : List Rule :=
  [.endOfInput, .program, .inputs, .outputs, .ranges, .names, .row, .probability, .fraction,
    .number, .integer, .inputWord, .outputWord, .rangeWord, .identifier]

/-- The name of a part in messages. -/
def Rule.name : Rule → String
  | .endOfInput => "EOI"
  | .program => "program"
  | .inputs => "input_decl"
  | .outputs => "output_decl"
  | .ranges => "range_decl"
  | .names => "name_list"
  | .row => "row"
  | .probability => "probability"
  | .fraction => "fraction"
  | .number => "number"
  | .integer => "integer"
  | .inputWord => "kw_input"
  | .outputWord => "kw_output"
  | .rangeWord => "kw_range"
  | .identifier => "ident"

/-- A greedy pattern. -/
inductive Pattern where
  /-- These characters. -/
  | exactly (text : List Char)
  /-- One character of a class. -/
  | one (test : Char → Bool)
  /-- The end of the text. -/
  | finish
  /-- One pattern and then another. -/
  | both (first second : Pattern)
  /-- One pattern, or else another. -/
  | either (first second : Pattern)
  /-- A pattern as often as it matches. -/
  | many (body : Pattern)
  /-- A pattern if it matches. -/
  | maybe (body : Pattern)
  /-- Nothing, where a pattern does not match. -/
  | notBefore (body : Pattern)
  /-- A part with a name. -/
  | named (rule : Rule) (body : Pattern)

end Nonlocal.Source
