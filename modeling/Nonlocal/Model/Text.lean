import Nonlocal.Model.Basic

/-!
# The text of a model

A model is written as its kind, then module by module with an empty line before
each. Declarations and commands are indented by a tab, and an empty line comes
before each family of commands. A command with a single certain branch is
written without a weight. An empty guard and an empty list of effects are both
`true`.
-/

namespace Nonlocal

/-- The keyword for a kind of model. -/
def ModelKind.keyword : ModelKind → String
  | .dtmc => "dtmc"

/-- The text of a value. -/
def Value.text : Value → String
  | .int value => toString value
  | .bool true => "true"
  | .bool false => "false"

/-- The text of a declaration. -/
def Declaration.text (declaration : Declaration) : String :=
  let domain := match declaration.domain with
    | .range low high => s!"[{low}..{high}]"
    | .bool => "bool"
  s!"{declaration.name} : {domain} init {declaration.init.text};"

/-- Texts joined by ` & `, or `true` if there are none. -/
def conjunction (parts : List String) : String :=
  if parts.isEmpty then "true" else " & ".intercalate parts

/-- The text of a guard. -/
def guardText (guard : List Binding) : String :=
  conjunction (guard.map fun equation => s!"({equation.name} = {equation.value.text})")

/-- The text of the effects of a branch. -/
def updatesText (updates : List Binding) : String :=
  conjunction (updates.map fun update => s!"({update.name}' = {update.value.text})")

variable {α : Type}

/-- The text of a weight: a ratio as it is, a probability in plain decimals. -/
def Weight.text [ScalarText α] : Weight α → String
  | .ratio numerator denominator => s!"{numerator}/{denominator}"
  | .decimal probability => ScalarText.text probability

/-- The text of a branch with its weight. -/
def Branch.text [ScalarText α] (branch : Branch α) : String :=
  s!"{branch.weight.text} : {updatesText branch.updates}"

/-- The text of the branches of a command. -/
def branchesText [One α] [BEq α] [ScalarText α] (branches : List (Branch α)) : String :=
  match branches with
  | [only] => if only.weight.isCertain then updatesText only.updates else only.text
  | _ => " + ".intercalate (branches.map Branch.text)

/-- The text of a command. -/
def Command.text [One α] [BEq α] [ScalarText α] (command : Command α) : String :=
  let label := command.label.getD ""
  s!"[{label}] {guardText command.guard} -> {branchesText command.branches};"

/-- The lines of commands, given the family of the command before them. -/
def commandLines [One α] [BEq α] [ScalarText α] (previous : Option Family) :
    List (Command α) → List String
  | [] => []
  | command :: rest =>
    let family := command.key.family
    let lines := ("\t" ++ command.text) :: commandLines (some family) rest
    if previous = some family then lines else "" :: lines

/-- The lines of a module. -/
def Module.lines [One α] [BEq α] [ScalarText α] (part : Module α) : List String :=
  ("module " ++ part.name) :: part.declarations.map (fun declaration => "\t" ++ declaration.text)
    ++ commandLines none part.commands ++ ["endmodule"]

namespace Model

/-- The lines of a model. -/
def lines [One α] [BEq α] [ScalarText α] (model : Model α) : List String :=
  model.kind.keyword :: model.modules.flatMap fun part => "" :: part.lines

/-- The text of a model; every line ends with a line feed. -/
def text [One α] [BEq α] [ScalarText α] (model : Model α) : String :=
  "\n".intercalate model.lines ++ "\n"

end Model

end Nonlocal
