import Nonlocal.Decimal.Numeral

/-!
# Identifiers

Variables of a box become variables of the model made from it, so they have to
be identifiers of the modelling language and may not be one of its reserved
words. The model has names of its own as well: a ready flag, a module per
input and one for the outputs, a copy of every consumed input, and a label per
input value. `isGenerated` recognises these.
-/

namespace Nonlocal.Identifier

/-- The reserved words of the modelling language. -/
def reservedWords : List String :=
  ["A", "bool", "clock", "const", "ctmc", "C", "double", "dtmc", "E", "endinit",
    "endinvariant", "endmodule", "endobservables", "endrewards", "endsystem", "false",
    "formula", "filter", "func", "F", "global", "G", "init", "invariant", "I", "int",
    "label", "max", "mdp", "min", "module", "X", "nondeterministic", "observable",
    "observables", "of", "Pmax", "Pmin", "P", "pomdp", "popta", "probabilistic", "prob",
    "pta", "rate", "rewards", "Rmax", "Rmin", "R", "S", "stochastic", "system", "true",
    "U", "W"]

/-- Whether a name is a reserved word. -/
def isReserved (name : String) : Bool := reservedWords.contains name

/-- A letter of the first 128 characters or an underscore. -/
def isStart (char : Char) : Bool := char.isAlpha || char == '_'

/-- A letter or digit of the first 128 characters or an underscore. -/
def isPart (char : Char) : Bool := char.isAlphanum || char == '_'

/-- Whether the characters start like an identifier and go on like one. -/
def isIdentifierText : List Char → Bool
  | [] => false
  | first :: rest => isStart first && rest.all isPart

/-- Whether a name is an identifier. -/
def isIdentifier (name : String) : Bool := isIdentifierText name.toList

/-- The flag that is true while no disclosure is pending. -/
def readyFlag : String := "ready"

/-- The module that discloses the outputs. -/
def outputModule : String := "OUTPUT"

/-- The output module's copy of the value consumed from an input. -/
def seenVariable (input : String) : String := input ++ "_seen"

/-- The module that draws the values of an input. -/
def inputModule (input : String) : String := "INPUT_" ++ input

/-- The label on which a value of an input is handed over. -/
def syncLabel (input : String) (value : Nat) : String := input ++ "_" ++ toString value

/-- The value in a label of an input, if the name is the input, an underscore and
a count. -/
def labelValue? (input name : List Char) : Option Nat :=
  if input.isPrefixOf name then
    match name.drop input.length with
    | '_' :: digits => Decimal.readWord? digits
    | _ => none
  else none

/-- Whether a name is a label of an input with values below `inputRange`. A count
with a sign or with leading zeros is no label. -/
def isSyncLabel (input name : String) (inputRange : Nat) : Bool :=
  match labelValue? input.toList name.toList with
  | some value => value < inputRange && syncLabel input value == name
  | none => false

/-- Whether a model with these inputs has the name for something of its own. -/
def isGenerated (name : String) (inputs : List String) (inputRange : Nat) : Bool :=
  name == readyFlag || name == outputModule ||
    inputs.any fun input =>
      name == inputModule input || name == seenVariable input
        || isSyncLabel input name inputRange

end Nonlocal.Identifier
