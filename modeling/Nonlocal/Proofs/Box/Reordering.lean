import Nonlocal.Proofs.Box.Queries
import Nonlocal.Proofs.Box.Tabulated
import Nonlocal.Proofs.Tuple.Rearranged
import Nonlocal.Proofs.Validity.Closeness

/-!
# Boxes with their parties in another order

Two boxes differ in the order of their parties if a permutation takes the names and
tuples of the one to those of the other and keeps the likelihoods. Every sum over tuples
in the one is a sum over the moved tuples in the other, so the queries come to the same
for moved arguments. The inverse permutation leads back.
-/

namespace Nonlocal.Box

/-- One box lists the parties of another in the order that a permutation gives. -/
structure Reorders (order : Equiv.Perm Nat) (box other : Box Rat) : Prop where
  keeps : Tuple.Keeps order box.partyCount
  inputs : other.inputs = Tuple.moved order box.inputs
  outputs : other.outputs = Tuple.moved order box.outputs
  inputRange : other.inputRange = box.inputRange
  outputRange : other.outputRange = box.outputRange
  likelihood : ∀ input output, Tuple.Fits box.inputRange box.partyCount input →
    Tuple.Fits box.outputRange box.partyCount output →
    other.likelihood (Tuple.moved order input) (Tuple.moved order output)
      = box.likelihood input output

/-- The box with its parties in another order: names are moved, and a tuple has the likelihood
that it has when it is moved back. -/
def reordered (box : Box Rat) (order : Equiv.Perm Nat) : Box Rat :=
  tabulated (Tuple.moved order box.inputs) (Tuple.moved order box.outputs) box.inputRange
    box.outputRange fun input output =>
      box.likelihood (Tuple.moved order.symm input) (Tuple.moved order.symm output)

/-- It is as rectangular as the box. -/
theorem Rectangular.reordered {box : Box Rat} (rectangular : box.Rectangular)
    (order : Equiv.Perm Nat) : (box.reordered order).Rectangular := by
  apply rectangular_tabulated
  rw [Tuple.length_moved, Tuple.length_moved]
  exact rectangular.balanced

/-- A shaped box keeps its shape. -/
theorem Shaped.reordered {box : Box Rat} (shaped : box.Shaped) (order : Equiv.Perm Nat) :
    (box.reordered order).Shaped := by
  have sameParties : (box.reordered order).partyCount = box.partyCount := Tuple.length_moved ..
  have rectangular := shaped.rectangular.reordered order
  exact {
    balanced := rectangular.balanced
    inhabited := sameParties ▸ shaped.inhabited
    inputRanged := shaped.inputRanged
    outputRanged := shaped.outputRanged
    rows := rectangular.rows
    columns := rectangular.columns
    rowWords := sameParties ▸ shaped.rowWords
    columnWords := sameParties ▸ shaped.columnWords }

/-- The box with its parties in another order lists them in that order. -/
theorem Shaped.reorders {box : Box Rat} (shaped : box.Shaped) {order : Equiv.Perm Nat}
    (keeps : Tuple.Keeps order box.partyCount) : Reorders order box (box.reordered order) where
  keeps := keeps
  inputs := rfl
  outputs := rfl
  inputRange := rfl
  outputRange := rfl
  likelihood := by
    intro input output inputFits outputFits
    have sameParties : (Tuple.moved order box.inputs).length = box.partyCount :=
      Tuple.length_moved ..
    have movedInput := inputFits.moved keeps
    have movedOutput := outputFits.moved keeps
    rw [← sameParties] at movedInput movedOutput
    rw [Box.reordered, likelihood_tabulated (shaped.reordered order) movedInput movedOutput,
      Tuple.moved_symm_moved (by rwa [inputFits.1]), Tuple.moved_symm_moved (by rwa [outputFits.1])]

namespace Reorders

variable {order : Equiv.Perm Nat} {box other : Box Rat} (reorders : Reorders order box other)

include reorders

/-- Both boxes have equally many parties. -/
theorem partyCount : other.partyCount = box.partyCount := by
  rw [Box.partyCount, reorders.inputs, Tuple.length_moved, Box.partyCount]

/-- The inverse permutation leads back. -/
theorem symm (shaped : box.Shaped) : Reorders order.symm other box where
  keeps := by
    rw [reorders.partyCount]
    exact reorders.keeps.symm
  inputs := by rw [reorders.inputs, Tuple.moved_symm_moved reorders.keeps]
  outputs := by
    have keeps := reorders.keeps
    rw [← shaped.balanced] at keeps
    rw [reorders.outputs, Tuple.moved_symm_moved keeps]
  inputRange := reorders.inputRange.symm
  outputRange := reorders.outputRange.symm
  likelihood := by
    intro input output inputFits outputFits
    rw [reorders.partyCount, reorders.inputRange] at inputFits
    rw [reorders.partyCount, reorders.outputRange] at outputFits
    have back := reorders.keeps.symm
    have same := reorders.likelihood _ _ (inputFits.moved back) (outputFits.moved back)
    rwa [Tuple.moved_moved_symm (by rw [inputFits.1]; exact reorders.keeps),
      Tuple.moved_moved_symm (by rw [outputFits.1]; exact reorders.keeps), eq_comm] at same

section

variable {input output : List Nat}
  (inputFits : Tuple.Fits box.inputRange box.partyCount input)

include inputFits

/-- A sum of likelihoods over a set of outputs is the sum over the moved ones. -/
theorem sum_likelihood (chosen moved : List Nat → Prop) [DecidablePred chosen]
    [DecidablePred moved]
    (same : ∀ output, Tuple.Fits box.outputRange box.partyCount output →
      (moved (Tuple.moved order output) ↔ chosen output)) :
    ∑ output ∈ Tuple.tuples other.outputRange other.partyCount with moved output,
        other.likelihood (Tuple.moved order input) output
      = ∑ output ∈ Tuple.tuples box.outputRange box.partyCount with chosen output,
          box.likelihood input output := by
  rw [reorders.outputRange, reorders.partyCount, Finset.sum_filter, Finset.sum_filter,
    ← Tuple.sum_moved reorders.keeps]
  apply Finset.sum_congr rfl
  intro output member
  have outputFits := Tuple.mem_tuples.mp member
  simp only [same output outputFits, reorders.likelihood input output inputFits outputFits]

/-- Summing over the moved outputs of a query is summing over its outputs. -/
theorem sum_matching (outputFits : Tuple.Fits box.outputRange box.partyCount output)
    (positions : List Nat) :
    ∑ told ∈ other.matching (positions.map order) (Tuple.moved order output),
        other.likelihood (Tuple.moved order input) told
      = ∑ told ∈ box.matching positions output, box.likelihood input told := by
  apply reorders.sum_likelihood inputFits
  intro told toldFits
  have keeps := reorders.keeps
  rw [reorders.partyCount]
  constructor
  · intro same party inside outside
    have atParty := same (order party) ((keeps party).mpr inside)
      (by simpa using outside)
    rwa [Tuple.getElem?_moved (by rwa [toldFits.1]), Tuple.getElem?_moved (by rwa [outputFits.1])]
      at atParty
  · intro same party inside outside
    obtain ⟨origin, rfl⟩ := order.surjective party
    rw [Tuple.getElem?_moved (by rwa [toldFits.1]), Tuple.getElem?_moved (by rwa [outputFits.1])]
    exact same origin ((keeps origin).mp inside) (by simpa using outside)

/-- Fixing the outputs of the others is fixing them in their places. -/
theorem freeMass (outputFits : Tuple.Fits box.outputRange box.partyCount output) (party : Nat) :
    other.freeMass (order party) (Tuple.moved order input) (Tuple.moved order output)
      = box.freeMass party input output := by
  rw [Box.freeMass, Box.freeMass, reorders.outputRange]
  apply Finset.sum_congr rfl
  intro told member
  have toldFits := outputFits.set (Finset.mem_range.mp member) party
  rw [← reorders.likelihood input _ inputFits toldFits,
    Tuple.moved_set (by rw [outputFits.1]; exact reorders.keeps)]

end

/-- Inputs of a party are as close as those of the party that it is sent to. -/
theorem close {tolerance : Rat} {party value baseline : Nat}
    (close : box.Close tolerance party value baseline) (inside : value < box.inputRange)
    (baselineInside : baseline < box.inputRange) :
    other.Close tolerance (order party) value baseline := by
  intro input output inputFits outputFits
  rw [reorders.inputRange, reorders.partyCount] at inputFits
  rw [reorders.outputRange, reorders.partyCount] at outputFits
  obtain ⟨asked, askedFits, rfl⟩ := inputFits.exists_moved reorders.keeps
  obtain ⟨told, toldFits, rfl⟩ := outputFits.exists_moved reorders.keeps
  have keeps := reorders.keeps
  rw [← askedFits.1] at keeps
  rw [← Tuple.moved_set keeps, ← Tuple.moved_set keeps,
    reorders.freeMass (askedFits.set inside party) toldFits,
    reorders.freeMass (askedFits.set baselineInside party) toldFits]
  exact close asked told askedFits toldFits

/-- The query on one party is the query on the party that it is sent to. -/
theorem reducedProb (shaped : box.Shaped) (otherShaped : other.Shaped) {party asked told : Nat}
    (present : party < box.partyCount) (askedInside : asked < box.inputRange)
    (toldInside : told < box.outputRange) :
    other.reducedProb (order party) asked told = box.reducedProb party asked told := by
  have sent : order party < other.partyCount := by
    rw [reorders.partyCount]
    exact (reorders.keeps party).mpr present
  have otherAsked : asked < other.inputRange := reorders.inputRange ▸ askedInside
  have otherTold : told < other.outputRange := reorders.outputRange ▸ toldInside
  rw [shaped.reducedProb_eq present askedInside toldInside,
    otherShaped.reducedProb_eq sent otherAsked otherTold,
    shaped.sum_others present askedInside toldInside,
    otherShaped.sum_others sent otherAsked otherTold, reorders.inputRange, reorders.partyCount,
    Finset.sum_filter, Finset.sum_filter, ← Tuple.sum_moved reorders.keeps]
  congr 2
  apply Finset.sum_congr rfl
  intro input member
  have inputFits := Tuple.mem_tuples.mp member
  have summed := reorders.sum_likelihood inputFits (·[party]? = some told)
    (·[order party]? = some told) fun output outputFits => by
      rw [Tuple.getElem?_moved (by rw [outputFits.1]; exact reorders.keeps)]
  rw [reorders.partyCount] at summed
  rw [Tuple.getElem?_moved (by rw [inputFits.1]; exact reorders.keeps), summed]

/-- The query on a pending party is the query on the party that it is sent to. -/
theorem normalisedProb (shaped : box.Shaped) (otherShaped : other.Shaped)
    {input output : List Nat} {candidate : Nat} {rest : List Nat}
    (inputFits : Tuple.Fits box.inputRange box.partyCount input)
    (outputFits : Tuple.Fits box.outputRange box.partyCount output)
    (present : ∀ party ∈ candidate :: rest, party < box.partyCount)
    (distinct : (candidate :: rest).Nodup) :
    other.normalisedProb (Tuple.moved order input) (Tuple.moved order output)
        ((candidate :: rest).map order)
      = box.normalisedProb input output (candidate :: rest) := by
  have movedInput : Tuple.Fits other.inputRange other.partyCount (Tuple.moved order input) := by
    rw [reorders.inputRange, reorders.partyCount]
    exact inputFits.moved reorders.keeps
  have movedOutput : Tuple.Fits other.outputRange other.partyCount (Tuple.moved order output) := by
    rw [reorders.outputRange, reorders.partyCount]
    exact outputFits.moved reorders.keeps
  have sent : ∀ party ∈ (candidate :: rest).map order, party < other.partyCount := by
    intro party member
    obtain ⟨origin, pending, rfl⟩ := List.mem_map.mp member
    rw [reorders.partyCount]
    exact (reorders.keeps origin).mpr (present origin pending)
  have apart : ((candidate :: rest).map order).Nodup := distinct.map order.injective
  rw [shaped.normalisedProb_eq inputFits outputFits present distinct,
    ← reorders.sum_matching inputFits outputFits, ← reorders.sum_matching inputFits outputFits]
  exact otherShaped.normalisedProb_eq movedInput movedOutput sent apart

end Reorders

end Nonlocal.Box
