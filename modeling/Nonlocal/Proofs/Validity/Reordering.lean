import Nonlocal.Proofs.Box.Reordering
import Nonlocal.Proofs.Validity.Verdict

/-!
# The order of the parties does not matter

What validity demands of a box does not depend on the order in which its parties are
listed: the cells and the rows are the same up to their places, the names are the same,
and inputs of a party are as close as before wherever that party is sent to. So a box is
accepted in any order of its parties or in none, and the queries come to the same.
-/

namespace Nonlocal

namespace Box

/-- What is said of every cell of a shaped box is said of all likelihoods. -/
theorem Shaped.forall_cell_iff {box : Box Rat} (shaped : box.Shaped) (said : Rat → Prop) :
    (∀ row ∈ box.matrix, ∀ cell ∈ row, said cell)
      ↔ ∀ input output, Tuple.Fits box.inputRange box.partyCount input →
        Tuple.Fits box.outputRange box.partyCount output → said (box.likelihood input output) := by
  rw [shaped.matrix_eq]
  simp only [List.forall_mem_map, Tuple.mem_walk]
  exact ⟨fun all input output inputFits outputFits => all input inputFits output outputFits,
    fun all input inputFits output outputFits => all input output inputFits outputFits⟩

/-- What is said of the sum of every row of a shaped box is said of the sums of the
likelihoods. -/
theorem Shaped.forall_row_sum_iff {box : Box Rat} (shaped : box.Shaped) (said : Rat → Prop) :
    (∀ row ∈ box.matrix, said row.sum)
      ↔ ∀ input, Tuple.Fits box.inputRange box.partyCount input →
        said (∑ output ∈ Tuple.tuples box.outputRange box.partyCount,
          box.likelihood input output) := by
  rw [shaped.matrix_eq]
  simp only [List.forall_mem_map, Tuple.mem_walk, Tuple.sum_tuples]

/-- Names in another order can be the variables of a model as well. -/
theorem Named.perm {α : Type} {box other : Box α} (named : box.Named)
    (inputs : other.inputs.Perm box.inputs) (outputs : other.outputs.Perm box.outputs)
    (sameRange : other.inputRange = box.inputRange) : other.Named := by
  have declared : other.declared.Perm box.declared := inputs.append outputs
  exact {
    wellFormed := fun name member => named.wellFormed name (declared.mem_iff.mp member)
    unreserved := fun name member => named.unreserved name (declared.mem_iff.mp member)
    once := declared.nodup_iff.mpr named.once
    ungenerated := by
      intro name member generated
      apply named.ungenerated name (declared.mem_iff.mp member)
      simpa only [Identifier.Generated, inputs.mem_iff, sameRange] using generated }

end Box

namespace Validity

variable {order : Equiv.Perm Nat} {box other : Box Rat} {tolerance : Rat}

/-- A demand that is met by a box is met in any order of its parties. -/
theorem Demands.reorder (reorders : box.Reorders order other) (shaped : box.Shaped)
    (otherShaped : other.Shaped) {check : Check} (demanded : Demands box tolerance check) :
    Demands other tolerance check := by
  cases check with
  | valueRange =>
    have cells := (shaped.forall_cell_iff fun cell => 0 ≤ cell ∧ cell ≤ 1).mp demanded
    refine (otherShaped.forall_cell_iff fun cell => 0 ≤ cell ∧ cell ≤ 1).mpr ?_
    intro input output inputFits outputFits
    rw [reorders.inputRange, reorders.partyCount] at inputFits
    rw [reorders.outputRange, reorders.partyCount] at outputFits
    obtain ⟨asked, askedFits, rfl⟩ := inputFits.exists_moved reorders.keeps
    obtain ⟨told, toldFits, rfl⟩ := outputFits.exists_moved reorders.keeps
    rw [reorders.likelihood asked told askedFits toldFits]
    exact cells asked told askedFits toldFits
  | rowCount => exact ⟨otherShaped.inputRanged, otherShaped.outputRanged, otherShaped.rows⟩
  | rowLength =>
    intro row member
    rw [otherShaped.balanced]
    exact otherShaped.columns row member
  | rowSum =>
    have sums := (shaped.forall_row_sum_iff fun sum => |sum - 1| ≤ tolerance).mp demanded
    refine (otherShaped.forall_row_sum_iff fun sum => |sum - 1| ≤ tolerance).mpr ?_
    intro input inputFits
    rw [reorders.inputRange, reorders.partyCount] at inputFits
    obtain ⟨asked, askedFits, rfl⟩ := inputFits.exists_moved reorders.keeps
    have summed := reorders.sum_likelihood askedFits (fun _ => True) (fun _ => True)
      fun _ _ => Iff.rfl
    simp only [Finset.filter_true] at summed
    rw [summed]
    exact sums asked askedFits
  | partyBalance => exact ⟨otherShaped.balanced.symm, otherShaped.inhabited⟩
  | variableNaming =>
    have keeps := reorders.keeps
    rw [← shaped.balanced] at keeps
    have named : box.Named := demanded
    exact named.perm (reorders.inputs ▸ Tuple.perm_moved reorders.keeps)
      (reorders.outputs ▸ Tuple.perm_moved keeps) reorders.inputRange
  | nonSignalling =>
    rw [demands_nonSignalling_iff shaped] at demanded
    rw [demands_nonSignalling_iff otherShaped]
    intro party present value inside
    obtain ⟨origin, rfl⟩ := order.surjective party
    rw [reorders.partyCount, reorders.keeps] at present
    rw [reorders.inputRange] at inside
    exact reorders.close (demanded origin present value inside) inside shaped.inputRanged

/-- Validation accepts a box in any order of its parties. -/
theorem validate_reorder (reorders : box.Reorders order other) (storable : box.Storable)
    (otherShaped : other.Shaped) (otherStorable : other.Storable)
    (valid : validate box tolerance = .ok ()) : validate other tolerance = .ok () := by
  have shaped := shaped_of_validate valid
  obtain ⟨nonnegative, few, met⟩ := (validate_eq_ok_iff storable).mp valid
  refine (validate_eq_ok_iff otherStorable).mpr ⟨nonnegative, ?_, ?_⟩
  · have sameParties : other.inputs.length = box.inputs.length := reorders.partyCount
    rwa [sameParties]
  · exact fun check => (met check).reorder reorders shaped otherShaped

/-- A box is accepted in any order of its parties or in none, and every query on its parties is
answered alike when the arguments are put in that order. -/
theorem party_order_immaterial {box : Box Rat} (rectangular : box.Rectangular)
    (storable : box.Storable) {order : Equiv.Perm Nat}
    (keeps : Tuple.Keeps order box.partyCount) :
    (∀ tolerance, validate box tolerance = .ok ()
        ↔ validate (box.reordered order) tolerance = .ok ())
      ∧ (∀ party < box.partyCount, ∀ asked < box.inputRange, ∀ told < box.outputRange, ∃ p,
        box.reducedProb party asked told = .ok p
          ∧ (box.reordered order).reducedProb (order party) asked told = .ok p)
      ∧ ∀ input output, Tuple.Fits box.inputRange box.partyCount input →
        Tuple.Fits box.outputRange box.partyCount output → ∀ pending, pending ≠ [] →
        pending.Nodup → (∀ party ∈ pending, party < box.partyCount) → ∃ p,
        box.normalisedProb input output pending = .ok p
          ∧ (box.reordered order).normalisedProb (Tuple.moved order input)
              (Tuple.moved order output) (pending.map order) = .ok p := by
  have sameParties : (box.reordered order).partyCount = box.partyCount := Tuple.length_moved ..
  have otherRectangular := rectangular.reordered order
  have otherStorable := rectangular.storable_of_same otherRectangular sameParties rfl rfl storable
  refine ⟨fun tolerance => ⟨fun valid => ?_, fun valid => ?_⟩, ?_, ?_⟩
  · have shaped := shaped_of_validate valid
    exact validate_reorder (shaped.reorders keeps) storable (shaped.reordered order) otherStorable
      valid
  · have otherShaped := shaped_of_validate valid
    have shaped := rectangular.shaped storable (sameParties ▸ otherShaped.inhabited)
      otherShaped.inputRanged otherShaped.outputRanged
    exact validate_reorder ((shaped.reorders keeps).symm shaped) otherStorable shaped storable valid
  · intro party present asked askedInside told toldInside
    have shaped := rectangular.shaped storable (Nat.zero_lt_of_lt present)
      (Nat.zero_lt_of_lt askedInside) (Nat.zero_lt_of_lt toldInside)
    obtain ⟨p, given⟩ := shaped.exists_reducedProb present askedInside toldInside
    refine ⟨p, given, ?_⟩
    rw [← given]
    exact (shaped.reorders keeps).reducedProb shaped (shaped.reordered order) present askedInside
      toldInside
  · intro input output inputFits outputFits pending nonempty distinct present
    obtain ⟨candidate, rest, rfl⟩ := List.exists_cons_of_ne_nil nonempty
    have here : candidate < box.partyCount := present candidate List.mem_cons_self
    obtain ⟨asked, askedInside, -⟩ := inputFits.exists_digit here
    obtain ⟨told, toldInside, -⟩ := outputFits.exists_digit here
    have shaped := rectangular.shaped storable (Nat.zero_lt_of_lt here)
      (Nat.zero_lt_of_lt askedInside) (Nat.zero_lt_of_lt toldInside)
    obtain ⟨p, given⟩ := shaped.exists_normalisedProb inputFits outputFits present distinct
    refine ⟨p, given, ?_⟩
    rw [← given]
    exact (shaped.reorders keeps).normalisedProb shaped (shaped.reordered order) inputFits
      outputFits present distinct

/-- Two parties whose answers differ exactly if both are asked with 1, and a third one that
repeats what it is asked. -/
def accompaniedBox : Box Rat :=
  Box.tabulated ["x", "y", "z"] ["a", "b", "c"] 2 2 fun input output =>
    match input, output with
    | [x, y, z], [a, b, c] => if (a + b) % 2 = x * y ∧ c = z then 1 / 2 else 0
    | _, _ => 0

/-- Each of three parties takes the place of the next one, and the last that of the first. -/
def around : Equiv.Perm Nat := (Equiv.swap 1 2).trans (Equiv.swap 0 1)

/-- Three places are exchanged among themselves. -/
theorem keeps_around : Tuple.Keeps around 3 := by
  intro place
  rcases place with _ | _ | _ | place
  · decide
  · decide
  · decide
  · have elsewhere : around (place + 3) = place + 3 := by
      simp [around, Equiv.swap_apply_of_ne_of_ne]
    rw [elsewhere]

/-- The accompanied box is accepted in another order too, in which its first party repeats what
it is asked. -/
theorem accompaniedBox_reordered :
    accompaniedBox.Rectangular ∧ accompaniedBox.Storable
      ∧ Tuple.Keeps around accompaniedBox.partyCount
      ∧ validate (accompaniedBox.reordered around) 0 = .ok ()
      ∧ (accompaniedBox.reordered around).reducedProb 0 1 1 = .ok 1 := by
  have rectangular : accompaniedBox.Rectangular := Box.rectangular_tabulated rfl
  have storable : accompaniedBox.Storable := by decide +kernel
  have accepted : validate accompaniedBox 0 = .ok () := by decide +kernel
  have certain : accompaniedBox.reducedProb 2 1 1 = .ok 1 := by decide +kernel
  obtain ⟨acceptance, reduced, -⟩ := party_order_immaterial rectangular storable keeps_around
  obtain ⟨p, given, sameGiven⟩ := reduced 2 (by decide) 1 (by decide) 1 (by decide)
  obtain rfl : 1 = p := Except.ok.inj (certain.symm.trans given)
  exact ⟨rectangular, storable, keeps_around, (acceptance 0).mp accepted, sameGiven⟩

end Validity

end Nonlocal
