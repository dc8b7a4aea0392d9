import Nonlocal.Proofs.Validity.Demands

/-!
# When two inputs of a party are close

What a party is asked should not show in the outputs of the others. Here the last
demand is read on whole tuples: two values of a party's input are close if the outputs
of the others are as likely under the one as under the other, within the tolerance. The
check compares every value with the baseline 0. Closeness adds up: values that are both
close to a third are close to each other within twice the tolerance.
-/

namespace Nonlocal

namespace Box

variable {box : Box Rat} {tolerance other : Rat} {party value baseline : Nat}

/-- The likelihood of the outputs of the others, whatever one party answers. -/
def freeMass (box : Box Rat) (party : Nat) (input output : List Nat) : Rat :=
  ∑ told ∈ Finset.range box.outputRange, box.likelihood input (output.set party told)

/-- The outputs of the others are those that are left when the party's own is taken out. -/
theorem othersMass_eraseIdx {output : List Nat} (present : party < output.length)
    (input : List Nat) :
    box.othersMass party input (output.eraseIdx party) = box.freeMass party input output := by
  simp only [othersMass, freeMass, List.insertIdx_eraseIdx_self present.ne]

/-- Two values of a party's input leave the outputs of the others as likely, within the
tolerance. -/
def Close (box : Box Rat) (tolerance : Rat) (party value baseline : Nat) : Prop :=
  ∀ input output, Tuple.Fits box.inputRange box.partyCount input →
    Tuple.Fits box.outputRange box.partyCount output →
    |box.freeMass party (input.set party value) output
      - box.freeMass party (input.set party baseline) output| ≤ tolerance

/-- Closeness goes both ways. -/
theorem Close.symm (close : box.Close tolerance party value baseline) :
    box.Close tolerance party baseline value := by
  intro input output inputFits outputFits
  rw [abs_sub_comm]
  exact close input output inputFits outputFits

/-- Tolerances add up along a third value. -/
theorem Close.trans {third : Nat} (close : box.Close tolerance party value baseline)
    (further : box.Close other party baseline third) :
    box.Close (tolerance + other) party value third := by
  intro input output inputFits outputFits
  exact (abs_sub_le _ _ _).trans (add_le_add (close input output inputFits outputFits)
    (further input output inputFits outputFits))

end Box

namespace Validity

variable {box : Box Rat} {tolerance : Rat}

/-- The last demand is that all values of a party's input are close to 0. -/
theorem demands_nonSignalling_iff (shaped : box.Shaped) :
    Demands box tolerance .nonSignalling
      ↔ ∀ party < box.partyCount, ∀ value < box.inputRange, box.Close tolerance party value 0 := by
  constructor
  · intro demanded party present value inside input output inputFits outputFits
    have whole : box.partyCount - 1 + 1 = box.partyCount := by omega
    have room : party ≤ box.partyCount - 1 := by omega
    have others := (whole.symm ▸ outputFits).eraseIdx room
    have inInput : party < input.length := inputFits.1.symm ▸ present
    have inOutput : party < output.length := outputFits.1.symm ▸ present
    have close := demanded party present (input.set party 0)
      (inputFits.set shaped.inputRanged party) (List.getElem?_set_self inInput) value inside
      (output.eraseIdx party) others
    rwa [List.set_set, Box.othersMass_eraseIdx inOutput, Box.othersMass_eraseIdx inOutput] at close
  · intro close party present input inputFits isZero value inside otherOutputs othersFit
    have whole : box.partyCount - 1 + 1 = box.partyCount := by omega
    have room : party ≤ box.partyCount - 1 := by omega
    have outputFits := whole ▸ othersFit.insertIdx shaped.outputRanged room
    have inOutput : party < (otherOutputs.insertIdx party 0).length :=
      outputFits.1.symm ▸ present
    have near := close party present value inside input _ inputFits outputFits
    rwa [← Box.othersMass_eraseIdx inOutput, ← Box.othersMass_eraseIdx inOutput,
      List.eraseIdx_insertIdx_self, Tuple.set_self isZero] at near

end Validity

end Nonlocal
