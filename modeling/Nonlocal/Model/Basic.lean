import Nonlocal.Scalar

/-!
# Guarded-command models

A model is a list of modules. A module declares variables with a domain and an
initial value, and has commands: a label on which modules move together, a
guard that is a conjunction of equations, and weighted branches that assign to
variables. Nothing here is text; the text of a model is `Model.text`.

Commands carry a key. Keys are ordered by family first and then field by field,
and the commands of the output module are sorted by their keys.
-/

namespace Nonlocal

/-- The kinds of model that are made. -/
inductive ModelKind where
  | dtmc
  deriving DecidableEq, Repr

/-- A value of a model variable. -/
inductive Value where
  | int (value : Int)
  | bool (value : Bool)
  deriving DecidableEq, Repr

/-- The values that a variable may take. -/
inductive Domain where
  | range (low high : Int)
  | bool
  deriving DecidableEq, Repr

/-- Whether a value belongs to a domain. -/
def Domain.holds : Domain → Value → Bool
  | .range low high, .int value => low ≤ value && value ≤ high
  | .bool, .bool _ => true
  | _, _ => false

/-- A declared variable. -/
structure Declaration where
  name : String
  domain : Domain
  init : Value
  deriving DecidableEq, Repr

/-- A variable together with a value: the equation of a guard, or the effect of a
branch. -/
structure Binding where
  name : String
  value : Value
  deriving DecidableEq, Repr

/-- The chance of a branch. Uniform choices keep their exact ratio. -/
inductive Weight (α : Type) where
  | ratio (numerator denominator : Nat)
  | decimal (probability : α)
  deriving DecidableEq, Repr

/-- Whether a weight says that its branch is taken for certain. -/
def Weight.isCertain {α : Type} [One α] [BEq α] : Weight α → Bool
  | .ratio numerator denominator => numerator == denominator
  | .decimal probability => probability == 1

/-- One outcome of a command. -/
structure Branch (α : Type) where
  weight : Weight α
  updates : List Binding
  deriving DecidableEq, Repr

/-- The kinds of command, in the order in which they stand in their module. -/
inductive Family where
  /-- An input module draws a fresh input value. -/
  | coinToss
  /-- An input module hands its value to the output module. -/
  | consume
  /-- The output module records a consumed input. -/
  | inputSync
  /-- The first output is disclosed. -/
  | reduced
  /-- A later output is disclosed. -/
  | normalised
  deriving DecidableEq, Repr

/-- The place of a family in the order. -/
def Family.rank : Family → Nat
  | .coinToss => 0
  | .consume => 1
  | .inputSync => 2
  | .reduced => 3
  | .normalised => 4

/-- What a command is for; it fixes the command's place in its module. -/
structure Key where
  family : Family
  subsetSize : Nat
  subsetMask : Nat
  party : Nat
  inputValue : Nat
  inputTuple : Nat
  outputTuple : Nat
  deriving DecidableEq, Repr

namespace Key

/-- The key of a command that concerns one party and input value only. -/
def single (family : Family) (party inputValue : Nat) : Key :=
  ⟨family, 0, 0, party, inputValue, 0, 0⟩

/-- The numbers by which keys are compared, the most significant first. -/
def ranks (key : Key) : List Nat :=
  [key.family.rank, key.subsetSize, key.subsetMask, key.party, key.inputValue,
    key.inputTuple, key.outputTuple]

/-- Whether the first list is not after the second in lexicographic order. -/
def ranksLe : List Nat → List Nat → Bool
  | a :: as, b :: bs => a < b || (a == b && ranksLe as bs)
  | [], _ => true
  | _ :: _, [] => false

/-- Whether a key is not after another one. -/
def le (a b : Key) : Bool := ranksLe a.ranks b.ranks

/-- Puts an element in front of the first one that its key does not come after. -/
def insert {β : Type} (key : β → Key) (element : β) : List β → List β
  | [] => [element]
  | first :: rest =>
    if (key element).le (key first) then element :: first :: rest
    else first :: insert key element rest

/-- Elements in the order of their keys; those with one key keep their order. -/
def sort {β : Type} (key : β → Key) (elements : List β) : List β :=
  elements.foldr (insert key) []

end Key

/-- A guarded command. Without a label it moves alone. -/
structure Command (α : Type) where
  key : Key
  label : Option String
  guard : List Binding
  branches : List (Branch α)
  deriving DecidableEq, Repr

/-- A module of a model. -/
structure Module (α : Type) where
  name : String
  declarations : List Declaration
  commands : List (Command α)
  deriving DecidableEq, Repr

/-- A model: its kind and its modules. -/
structure Model (α : Type) where
  kind : ModelKind
  modules : List (Module α)
  deriving DecidableEq, Repr

namespace Model

variable {α : Type}

/-- The number of commands of all modules. -/
def commandCount (model : Model α) : Nat :=
  model.modules.foldr (fun part count => part.commands.length + count) 0

/-- The first module of a name. -/
def module? (model : Model α) (name : String) : Option (Module α) :=
  model.modules.find? (·.name == name)

end Model

/-- The number of a module's commands that belong to a family. -/
def Module.familyCount {α : Type} (part : Module α) (family : Family) : Nat :=
  (part.commands.filter (·.key.family == family)).length

end Nonlocal
