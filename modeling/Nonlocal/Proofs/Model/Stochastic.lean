import Mathlib.Algebra.Order.BigOperators.Group.List
import Mathlib.Algebra.Order.Field.Basic
import Mathlib.Algebra.Order.Ring.Rat
import Nonlocal.Model.Basic

/-!
# Commands as probability distributions

A command chooses one of its branches by their weights. Over exact numbers it is a
probability distribution if all weights are positive and sum to 1; that none of them
exceeds 1 then follows. Its outcomes are told apart by the first variable that a branch
assigns: it is the same for all branches, and no two give it the same value.
-/

namespace Nonlocal

/-- A weight as an exact number. -/
def Weight.share : Weight Rat → Rat
  | .ratio numerator denominator => numerator / denominator
  | .decimal probability => probability

/-- A command that chooses by a probability distribution among different values of one
variable. -/
structure Command.Stochastic (command : Command Rat) : Prop where
  inhabited : command.branches ≠ []
  positive : ∀ branch ∈ command.branches, 0 < branch.weight.share
  atMostOne : ∀ branch ∈ command.branches, branch.weight.share ≤ 1
  total : (command.branches.map (·.weight.share)).sum = 1
  apart : ∃ (name : String) (values : List Value), values.Nodup
    ∧ command.branches.map (·.updates.head?) = values.map fun value => some ⟨name, value⟩

namespace Command

variable {command : Command Rat}

/-- Positive weights that sum to 1 make a distribution. -/
theorem Stochastic.of_total (positive : ∀ branch ∈ command.branches, 0 < branch.weight.share)
    (total : (command.branches.map (·.weight.share)).sum = 1)
    (apart : ∃ (name : String) (values : List Value), values.Nodup
      ∧ command.branches.map (·.updates.head?) = values.map fun value => some ⟨name, value⟩) :
    command.Stochastic where
  inhabited := by
    intro empty
    rw [empty] at total
    simp at total
  positive := positive
  atMostOne := by
    intro branch member
    rw [← total]
    apply List.single_le_sum
    · intro share isShare
      obtain ⟨other, otherMember, rfl⟩ := List.mem_map.mp isShare
      exact (positive other otherMember).le
    · exact List.mem_map_of_mem member
  total := total
  apart := apart

/-- A lone branch that is taken for certain is a distribution. -/
theorem Stochastic.of_certain {name : String} {value : Value} {later : List Binding}
    (alone : command.branches = [⟨.ratio 1 1, ⟨name, value⟩ :: later⟩]) :
    command.Stochastic := by
  apply Stochastic.of_total
  · simp [alone, Weight.share]
  · simp [alone, Weight.share]
  · exact ⟨name, [value], by simp, by simp [alone]⟩

end Command

end Nonlocal
