import Nonlocal.Proofs.Box.Queries

/-!
# Completions of the known outputs

A later query gets an output tuple in which only some entries count: those of the
candidate and of the parties that are not pending. What stands at the other pending
parties is written over before any lookup, so it need not even be in range, and the
tuples that are summed over are all completions of the entries that count. The order in
which the other parties are pending decides the order of the summands alone.
-/

namespace Nonlocal

namespace Box

/-- The entries of the other pending parties do not show in a query. -/
theorem normalisedProb_congr {α : Type} [Zero α] [Add α] [Div α] [BEq α] {box : Box α}
    (input : List Nat) {left right : List Nat} {candidate : Nat} {rest : List Nat}
    (sameLength : left.length = right.length)
    (agree : ∀ party, party ∉ rest → left[party]? = right[party]?) :
    box.normalisedProb input left (candidate :: rest)
      = box.normalisedProb input right (candidate :: rest) := by
  have answered (value : Nat) : box.summedOut input (left.set candidate value) rest
      = box.summedOut input (right.set candidate value) rest := by
    apply summedOut_congr input (by simpa using sameLength)
    intro party outside
    rw [List.getElem?_set, List.getElem?_set, sameLength, agree party outside]
  simp only [normalisedProb, summedOut_congr input sameLength agree, answered]

/-- Outputs that are impossible together give a later answer the probability 0, whatever the
quotient by 0 is in the number type. -/
theorem normalisedProb_of_impossible {α : Type} [Zero α] [Add α] [Div α] [BEq α] {box : Box α}
    {input output : List Nat} {candidate : Nat} {rest : List Nat} {numerator denominator : α}
    (passes : ensurePending box.partyCount [] (candidate :: rest) = .ok ())
    (summed : box.summedOut input output rest = .ok numerator)
    (added : foldValues
      (fun total value => do
        let part ← box.summedOut input (output.set candidate value) rest
        pure (total + part))
      box.outputRange 0 0 = .ok denominator)
    (impossible : (denominator == 0) = true) :
    box.normalisedProb input output (candidate :: rest) = .ok 0 := by
  rw [normalisedProb, passes, summed, added]
  exact congrArg Except.ok (if_pos impossible)

/-- Entries that are in range outside some positions can be completed to a fitting
tuple. -/
theorem exists_completion {radix : Nat} {digits positions : List Nat} (positive : 0 < radix)
    (inside : ∀ party, party ∉ positions → ∀ value, digits[party]? = some value → value < radix) :
    ∃ completed, Tuple.Fits radix digits.length completed
      ∧ ∀ party, party ∉ positions → completed[party]? = digits[party]? := by
  refine ⟨digits.mapIdx fun party value => if party ∈ positions then 0 else value,
    ⟨List.length_mapIdx, ?_⟩, ?_⟩
  · intro value member
    obtain ⟨party, present, rfl⟩ := List.mem_mapIdx.mp member
    split
    · exact positive
    · next outside => exact inside party outside _ (List.getElem?_eq_getElem present)
  · intro party outside
    simp [List.getElem?_mapIdx, outside]

variable {box : Box Rat}

/-- Which tuples match depends on the set of free positions and on the entries elsewhere. -/
theorem matching_congr {positions others left right : List Nat}
    (samePositions : ∀ party, party ∈ positions ↔ party ∈ others)
    (agree : ∀ party, party ∉ positions → left[party]? = right[party]?) :
    box.matching positions left = box.matching others right := by
  ext other
  rw [mem_matching, mem_matching]
  apply and_congr_right
  intro fits
  apply forall₂_congr
  intro party present
  rw [← samePositions]
  exact forall_congr' fun outside => by rw [agree party outside]

/-- A query comes to what it is on any fitting outputs that agree where it counts, in
whatever order the other parties are pending. -/
theorem Shaped.normalisedProb_completed (shaped : box.Shaped)
    {input output completed : List Nat} {candidate : Nat} {rest reordered : List Nat}
    (inputFits : Tuple.Fits box.inputRange box.partyCount input)
    (completedFits : Tuple.Fits box.outputRange box.partyCount completed)
    (present : ∀ party ∈ candidate :: rest, party < box.partyCount)
    (distinct : (candidate :: rest).Nodup) (sameLength : output.length = box.partyCount)
    (agree : ∀ party, party ∉ rest → output[party]? = completed[party]?)
    (perm : reordered.Perm rest) :
    box.normalisedProb input output (candidate :: reordered)
      = .ok ((∑ other ∈ box.matching rest completed, box.likelihood input other)
        / ∑ other ∈ box.matching (candidate :: rest) completed, box.likelihood input other) := by
  have all : (candidate :: reordered).Perm (candidate :: rest) := perm.cons candidate
  have numerator : box.matching reordered completed = box.matching rest completed :=
    matching_congr (fun party => perm.mem_iff) fun _ _ => rfl
  have denominator : box.matching (candidate :: reordered) completed
      = box.matching (candidate :: rest) completed :=
    matching_congr (fun party => all.mem_iff) fun _ _ => rfl
  have agreeReordered : ∀ party, party ∉ reordered → output[party]? = completed[party]? :=
    fun party outside => agree party fun member => outside (perm.mem_iff.mpr member)
  have answered := shaped.normalisedProb_eq inputFits completedFits
    (fun party member => present party (all.mem_iff.mp member)) (all.nodup_iff.mpr distinct)
  rw [numerator, denominator] at answered
  rwa [normalisedProb_congr input (sameLength.trans completedFits.1.symm) agreeReordered]

/-- A later query is the conditional probability that its name promises. In a matrix of
matching shape, with inputs in range and with pending parties that exist and are listed
once, it divides the likelihood of all completions of the given outputs by that of all
completions in which the candidate is free as well, and comes to 0 where the latter is 0.
The outputs count at the candidate and at the parties that are not pending; the other
pending parties may be listed in any order. -/
theorem normalisedProb_conditional (storable : box.Storable)
    (balanced : box.outputs.length = box.partyCount)
    (rows : box.matrix.length = Tuple.total box.inputRange box.partyCount)
    (columns : ∀ row ∈ box.matrix, row.length = Tuple.total box.outputRange box.partyCount)
    {input output : List Nat} {candidate : Nat} {rest : List Nat}
    (inputFits : Tuple.Fits box.inputRange box.partyCount input)
    (present : ∀ party ∈ candidate :: rest, party < box.partyCount)
    (distinct : (candidate :: rest).Nodup) (sameLength : output.length = box.partyCount)
    (inside : ∀ party, party ∉ rest → ∀ value, output[party]? = some value →
      value < box.outputRange) :
    (∀ other, Tuple.Fits box.outputRange box.partyCount other →
      box.prob input other = .ok (box.likelihood input other))
    ∧ box.normalisedProb input output (candidate :: rest)
        = .ok (if ∑ other ∈ box.matching (candidate :: rest) output, box.likelihood input other = 0
          then 0
          else (∑ other ∈ box.matching rest output, box.likelihood input other)
            / ∑ other ∈ box.matching (candidate :: rest) output, box.likelihood input other)
    ∧ ∀ reordered changed : List Nat, reordered.Perm rest → changed.length = output.length →
        (∀ party, party ∉ rest → changed[party]? = output[party]?) →
        box.normalisedProb input changed (candidate :: reordered)
          = box.normalisedProb input output (candidate :: rest) := by
  have here : candidate < box.partyCount := present candidate List.mem_cons_self
  have inputRanged : 0 < box.inputRange := by
    obtain ⟨digit, below, -⟩ := inputFits.exists_digit here
    omega
  have outputRanged : 0 < box.outputRange := by
    have := inside candidate (List.nodup_cons.mp distinct).1 _
      (List.getElem?_eq_getElem (sameLength ▸ here))
    omega
  have shaped : box.Shaped :=
    storable.shaped balanced rows columns (by omega) inputRanged outputRanged
  obtain ⟨completed, fits, agree⟩ := exists_completion outputRanged inside
  rw [sameLength] at fits
  have numerator : box.matching rest completed = box.matching rest output :=
    matching_congr (fun _ => Iff.rfl) agree
  have denominator : box.matching (candidate :: rest) completed
      = box.matching (candidate :: rest) output :=
    matching_congr (fun _ => Iff.rfl) fun party outside =>
      agree party fun member => outside (List.mem_cons_of_mem candidate member)
  have answered := shaped.normalisedProb_completed inputFits fits present distinct sameLength
    (fun party outside => (agree party outside).symm) (.refl rest)
  refine ⟨fun other otherFits => shaped.prob_eq inputFits otherFits, ?_, ?_⟩
  · rw [answered, numerator, denominator]
    split
    · next impossible => rw [impossible, div_zero]
    · rfl
  · intro reordered changed perm changedLength same
    rw [answered]
    exact shaped.normalisedProb_completed inputFits fits present distinct
      (changedLength.trans sameLength)
      (fun party outside => (same party outside).trans (agree party outside).symm) perm

/-- In the correlated box the second party's output may be out of range while it is pending:
with both asked with 1, the completions in which the first party answers 0 make up half of
all, and the query says so whatever the entry of the second party is. -/
theorem correlated_conditional :
    (Box.correlated 0 (1 / 2) : Box Rat).normalisedProb [1, 1] [0, 7] [0, 1] = .ok (1 / 2)
      ∧ (Box.correlated 0 (1 / 2) : Box Rat).normalisedProb [1, 1] [0, 0] [0, 1]
        = (Box.correlated 0 (1 / 2) : Box Rat).normalisedProb [1, 1] [0, 7] [0, 1] := by
  have inside : ∀ party, party ∉ [1] → ∀ value, [0, 7][party]? = some value → value < 2 := by
    rintro (_ | _ | party) outside value found
    · obtain rfl : 0 = value := by simpa using found
      decide
    · simp at outside
    · simp at found
  have agree : ∀ party, party ∉ [1] → [0, 0][party]? = [0, 7][party]? := by
    rintro (_ | _ | party) outside
    · rfl
    · simp at outside
    · rfl
  obtain ⟨-, conditional, independent⟩ := @normalisedProb_conditional (Box.correlated 0 (1 / 2))
    (by decide +kernel) rfl rfl (by decide) [1, 1] [0, 7] 0 [1] ⟨rfl, by decide⟩ (by decide)
    (by decide) rfl inside
  refine ⟨conditional.trans (congrArg Except.ok ?_), independent [1] [0, 0] (.refl _) rfl agree⟩
  decide +kernel

end Box

end Nonlocal
