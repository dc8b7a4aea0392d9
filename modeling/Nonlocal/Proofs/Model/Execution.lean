import Mathlib.Data.List.Forall2
import Mathlib.Logic.Function.Basic
import Nonlocal.Model.Basic

/-!
# Running a model

A state of a model gives every declared variable a value. A command is enabled
where its guard holds, and it takes one of its branches. Commands without a label
move alone. On a label all modules that have a command with it move together,
each with an enabled command of its own, or none of them does. A run is any
sequence of such steps from the declared initial values; nothing is assumed about
which step is taken where several are possible.
-/

namespace Nonlocal

variable {α : Type}

/-- A state: the values of the variables. -/
abbrev Valuation := String → Option Value

namespace Valuation

/-- A guard holds if each of its equations does. -/
def Satisfies (valuation : Valuation) (guard : List Binding) : Prop :=
  ∀ equation ∈ guard, valuation equation.name = some equation.value

/-- The state after the assignments of a list, the first one first. -/
def assign (valuation : Valuation) (updates : List Binding) : Valuation :=
  updates.foldl (fun state update => Function.update state update.name (some update.value))
    valuation

/-- The count that a variable holds; an unset variable holds none. -/
def count? (valuation : Valuation) (name : String) : Option Nat :=
  match valuation name with
  | some (.int (.ofNat count)) => some count
  | _ => none

/-- No assignment changes nothing. -/
@[simp] theorem assign_nil (valuation : Valuation) : valuation.assign [] = valuation := rfl

/-- The first assignment is made first. -/
@[simp] theorem assign_cons (valuation : Valuation) (update : Binding) (rest : List Binding) :
    valuation.assign (update :: rest)
      = assign (Function.update valuation update.name (some update.value)) rest := rfl

end Valuation

/-- A command is enabled where its guard holds. -/
def Command.Enabled (command : Command α) (valuation : Valuation) : Prop :=
  valuation.Satisfies command.guard

/-- A command that moves, and the branch that it takes. -/
structure Firing (α : Type) where
  command : Command α
  branch : Branch α

/-- A step of a model: the states before and after it, and what moved. -/
structure Transition (α : Type) where
  before : Valuation
  firings : List (Firing α)
  after : Valuation

namespace Module

/-- Whether a module moves on a label. -/
def hears (part : Module α) (label : String) : Bool :=
  part.commands.any fun command => command.label == some label

/-- A firing that a module can take part in a step with. -/
structure Fires (part : Module α) (label : Option String) (before : Valuation)
    (firing : Firing α) : Prop where
  own : firing.command ∈ part.commands
  labelled : firing.command.label = label
  enabled : firing.command.Enabled before
  branch : firing.branch ∈ firing.command.branches

end Module

namespace Model

/-- The state in which every variable has its declared initial value. -/
def initial (model : Model α) : Valuation := fun name =>
  ((model.modules.flatMap Module.declarations).find? (·.name == name)).map Declaration.init

/-- The modules that move on a label. -/
def listeners (model : Model α) (label : String) : List (Module α) :=
  model.modules.filter (·.hears label)

/-- The steps of a model. -/
inductive Step (model : Model α) : Transition α → Prop where
  /-- A command without a label moves alone. -/
  | alone (before : Valuation) (part : Module α) (firing : Firing α)
      (member : part ∈ model.modules) (fires : part.Fires none before firing) :
      Step model ⟨before, [firing], before.assign firing.branch.updates⟩
  /-- All modules that have a label move on it together. -/
  | together (before : Valuation) (label : String) (firings : List (Firing α))
      (heard : model.listeners label ≠ [])
      (fires : List.Forall₂ (fun part firing => part.Fires (some label) before firing)
        (model.listeners label) firings) :
      Step model ⟨before, firings, before.assign (firings.flatMap (·.branch.updates))⟩

/-- The runs of a model, with the steps taken and the state reached. -/
inductive Run (model : Model α) : List (Transition α) → Valuation → Prop where
  | start : Run model [] model.initial
  | step {trace : List (Transition α)} {transition : Transition α}
      (earlier : Run model trace transition.before) (moved : model.Step transition) :
      Run model (trace ++ [transition]) transition.after

/-- A state that some run leads to. -/
def Reachable (model : Model α) (state : Valuation) : Prop := ∃ trace, model.Run trace state

/-- Every beginning of a run is a run, and leads to the state in which the rest of it
starts. -/
theorem Run.beginning {model : Model α} {trace early late : List (Transition α)}
    {state : Valuation} (run : model.Run trace state) (parts : trace = early ++ late) :
    ∃ middle, model.Run early middle := by
  induction run generalizing late with
  | start =>
    obtain ⟨rfl, rfl⟩ := List.append_eq_nil_iff.mp parts.symm
    exact ⟨_, .start⟩
  | @step trace transition earlier moved inductionHypothesis =>
    rcases List.eq_nil_or_concat late with rfl | ⟨front, last, rfl⟩
    · rw [List.append_nil] at parts
      obtain rfl := parts
      exact ⟨_, .step earlier moved⟩
    · rw [List.concat_eq_append, ← List.append_assoc] at parts
      exact inductionHypothesis (List.append_inj' parts rfl).1

/-- A run and its last step, taken apart. -/
theorem Run.last {model : Model α} {trace : List (Transition α)} {transition : Transition α}
    {state : Valuation} (run : model.Run (trace ++ [transition]) state) :
    model.Run trace transition.before ∧ model.Step transition ∧ state = transition.after := by
  generalize whole : trace ++ [transition] = steps at run
  cases run with
  | start => simp at whole
  | step earlier moved =>
    obtain ⟨rfl, same⟩ := List.append_inj' whole rfl
    obtain rfl := (List.cons.inj same).1
    exact ⟨earlier, moved, rfl⟩

/-- The steps of a run tell the state that it leads to. -/
theorem Run.state_eq {model : Model α} {trace : List (Transition α)} {first second : Valuation}
    (isFirst : model.Run trace first) (isSecond : model.Run trace second) : first = second := by
  cases isFirst with
  | start =>
    generalize noSteps : ([] : List (Transition α)) = trace at isSecond
    cases isSecond with
    | start => rfl
    | step => simp at noSteps
  | step => exact isSecond.last.2.2.symm

end Model

end Nonlocal
