import Mathlib.Algebra.Order.Field.Basic
import Nonlocal.Proofs.Box.Answered
import Nonlocal.Proofs.Validity.Exact

/-!
# What the queries add up

Over exact numbers a query adds likelihoods up. Summing parties out runs through the
tuples that differ from a given one only at these parties, since overwriting them with
all values meets each such tuple once. The joint sum runs through the inputs and the
outputs of the others, and counts the inputs.
-/

namespace Nonlocal

namespace Box

variable {box : Box Rat} {input output positions : List Nat}

/-- The tuples that differ from a given one at most at some positions. -/
def matching (box : Box Rat) (positions output : List Nat) : Finset (List Nat) :=
  (Tuple.tuples box.outputRange box.partyCount).filter fun other =>
    ∀ party < box.partyCount, party ∉ positions → other[party]? = output[party]?

/-- The set holds the fitting tuples that agree with the given one elsewhere. -/
theorem mem_matching {other : List Nat} :
    other ∈ box.matching positions output
      ↔ Tuple.Fits box.outputRange box.partyCount other
        ∧ ∀ party < box.partyCount, party ∉ positions → other[party]? = output[party]? := by
  rw [matching, Finset.mem_filter, Tuple.mem_tuples]

/-- Fixing one more position leaves the tuples that have the value there. -/
theorem matching_set (fits : Tuple.Fits box.outputRange box.partyCount output)
    {position value : Nat} (present : position < box.partyCount) (fresh : position ∉ positions) :
    box.matching positions (output.set position value)
      = (box.matching (position :: positions) output).filter (·[position]? = some value) := by
  ext other
  rw [Finset.mem_filter, mem_matching, mem_matching, and_assoc]
  apply and_congr_right
  intro otherFits
  have setHere : (output.set position value)[position]? = some value :=
    List.getElem?_set_self (by rw [fits.1]; exact present)
  constructor
  · intro same
    refine ⟨fun party inside outside => ?_, (same position present fresh).trans setHere⟩
    obtain ⟨elsewhere, later⟩ : party ≠ position ∧ party ∉ positions := by simpa using outside
    rw [same party inside later, List.getElem?_set_ne (Ne.symm elsewhere)]
  · rintro ⟨same, isHere⟩ party inside later
    by_cases atPosition : party = position
    · rw [atPosition, isHere, setHere]
    · rw [List.getElem?_set_ne (Ne.symm atPosition)]
      exact same party inside (by simp [atPosition, later])

/-- Fixing a position with each value of the range in turn goes through the tuples in which
it is free as well. -/
theorem sum_matching_set (fits : Tuple.Fits box.outputRange box.partyCount output)
    {position : Nat} (present : position < box.partyCount) (fresh : position ∉ positions)
    (f : List Nat → Rat) :
    ∑ value ∈ Finset.range box.outputRange,
        ∑ other ∈ box.matching positions (output.set position value), f other
      = ∑ other ∈ box.matching (position :: positions) output, f other := by
  rw [← Tuple.sum_digit (fun other member => (mem_matching.mp member).1) present]
  apply Finset.sum_congr rfl
  intro value _
  rw [matching_set fits present fresh]

/-- Overwriting some positions with all values of the range runs through the tuples that
differ only there. -/
theorem sum_overwrite (fits : Tuple.Fits box.outputRange box.partyCount output)
    (present : ∀ position ∈ positions, position < box.partyCount) (distinct : positions.Nodup)
    (f : List Nat → Rat) :
    ∑ values ∈ Tuple.tuples box.outputRange positions.length,
        f (overwrite output positions values)
      = ∑ other ∈ box.matching positions output, f other := by
  induction positions generalizing output with
  | nil =>
    have alone : box.matching [] output = {output} := by
      ext other
      rw [mem_matching, Finset.mem_singleton]
      constructor
      · rintro ⟨otherFits, same⟩
        exact otherFits.ext fits fun party inside => same party inside (by simp)
      · rintro rfl
        exact ⟨fits, fun _ _ _ => rfl⟩
    rw [alone, List.length_nil, Tuple.sum_tuples_zero, Finset.sum_singleton]
    simp [overwrite]
  | cons position rest inductionHypothesis =>
    obtain ⟨fresh, restDistinct⟩ := List.nodup_cons.mp distinct
    have here : position < box.partyCount := present position List.mem_cons_self
    have restPresent : ∀ other ∈ rest, other < box.partyCount := fun other member =>
      present other (List.mem_cons_of_mem position member)
    rw [List.length_cons, Tuple.sum_tuples_succ, ← sum_matching_set fits here fresh]
    apply Finset.sum_congr rfl
    intro value member
    exact inductionHypothesis (fits.set (Finset.mem_range.mp member) position) restPresent
      restDistinct

/-- With fitting tuples a query looks up the likelihood. -/
theorem Shaped.queryProb_eq (shaped : box.Shaped)
    (inputFits : Tuple.Fits box.inputRange box.partyCount input)
    (outputFits : Tuple.Fits box.outputRange box.partyCount output) :
    box.queryProb input output = .ok (box.likelihood input output) := by
  rw [queryProb, Attempt.mapRefusal_eq_ok_iff, Attempt.ofExcept_eq_ok_iff]
  exact shaped.prob_eq inputFits outputFits

/-- Summing positions out adds up the tuples that differ only there. -/
theorem Shaped.summedOut_eq (shaped : box.Shaped)
    (inputFits : Tuple.Fits box.inputRange box.partyCount input)
    (outputFits : Tuple.Fits box.outputRange box.partyCount output)
    (present : ∀ position ∈ positions, position < box.partyCount) (distinct : positions.Nodup) :
    box.summedOut input output positions
      = .ok (∑ other ∈ box.matching positions output, box.likelihood input other) := by
  rw [← sum_overwrite outputFits present distinct, summedOut, Tuple.foldTuples_add _
    (fun values => box.likelihood input (overwrite output positions values)), zero_add]
  intro values fits total
  rw [shaped.queryProb_eq inputFits (overwrite_fits outputFits fits.2)]
  rfl

/-- A later query divides the sum over the outputs in which the pending parties but the
candidate are free by the sum over those in which the candidate is free as well. -/
theorem Shaped.normalisedProb_eq (shaped : box.Shaped) {candidate : Nat} {rest : List Nat}
    (inputFits : Tuple.Fits box.inputRange box.partyCount input)
    (outputFits : Tuple.Fits box.outputRange box.partyCount output)
    (present : ∀ party ∈ candidate :: rest, party < box.partyCount)
    (distinct : (candidate :: rest).Nodup) :
    box.normalisedProb input output (candidate :: rest)
      = .ok ((∑ other ∈ box.matching rest output, box.likelihood input other)
          / ∑ other ∈ box.matching (candidate :: rest) output, box.likelihood input other) := by
  obtain ⟨fresh, restDistinct⟩ := List.nodup_cons.mp distinct
  have here : candidate < box.partyCount := present candidate List.mem_cons_self
  have restPresent : ∀ party ∈ rest, party < box.partyCount := fun party member =>
    present party (List.mem_cons_of_mem candidate member)
  have numerator := shaped.summedOut_eq inputFits outputFits restPresent restDistinct
  have denominator : foldValues
      (fun total value => do
        let part ← box.summedOut input (output.set candidate value) rest
        pure (total + part))
      box.outputRange 0 (0 : Rat)
        = .ok (∑ other ∈ box.matching (candidate :: rest) output, box.likelihood input other) := by
    rw [← sum_matching_set outputFits here fresh]
    apply Tuple.foldValues_add
    intro value inside total
    rw [shaped.summedOut_eq inputFits (outputFits.set inside candidate) restPresent restDistinct]
    rfl
  refine (Attempt.bind_eq_ok_iff _ _ _).mpr ⟨(), ensurePending_eq_ok present distinct,
    (Attempt.bind_eq_ok_iff _ _ _).mpr ⟨_, numerator,
      (Attempt.bind_eq_ok_iff _ _ _).mpr ⟨_, denominator, ?_⟩⟩⟩
  -- a quotient by zero is zero as well
  by_cases impossible :
      ∑ other ∈ box.matching (candidate :: rest) output, box.likelihood input other = 0
  · simp [impossible, pure, Except.pure]
  · simp [impossible, pure, Except.pure]

/-- For one input tuple the joint sum adds up the tuples with the party's output. -/
theorem Shaped.foldTuples_insertAt_eq (shaped : box.Shaped) {party told : Nat}
    (present : party < box.partyCount) (inside : told < box.outputRange)
    (inputFits : Tuple.Fits box.inputRange box.partyCount input) (start : Rat) :
    Tuple.foldTuples box.outputRange (box.partyCount - 1)
        (fun total otherOutputs => do
          let fullOutput ← Tuple.insertAt otherOutputs party told
          let probability ← box.queryProb input fullOutput
          pure (total + probability))
        start
      = .ok (start + ∑ otherOutputs ∈ Tuple.tuples box.outputRange (box.partyCount - 1),
          box.likelihood input (otherOutputs.insertIdx party told)) := by
  have whole : box.partyCount - 1 + 1 = box.partyCount := by omega
  have room : party ≤ box.partyCount - 1 := by omega
  apply Tuple.foldTuples_add _ _ start
  intro otherOutputs fits total
  have fullOutput := whole ▸ fits.insertIdx inside room
  rw [Tuple.insertAt_eq_ok (fits.1 ▸ room)]
  simp only [bind, Except.bind, shaped.queryProb_eq inputFits fullOutput]
  rfl

/-- The joint sum adds up all tuples with the party's input and output, and counts the
inputs of the others. -/
theorem Shaped.jointSum_eq (shaped : box.Shaped) {party asked told : Nat}
    (present : party < box.partyCount) (askedInside : asked < box.inputRange)
    (toldInside : told < box.outputRange) :
    box.jointSum party asked told
      = .ok (∑ otherInputs ∈ Tuple.tuples box.inputRange (box.partyCount - 1),
            ∑ otherOutputs ∈ Tuple.tuples box.outputRange (box.partyCount - 1),
              box.likelihood (otherInputs.insertIdx party asked)
                (otherOutputs.insertIdx party told),
          Tuple.total box.inputRange (box.partyCount - 1)) := by
  have whole : box.partyCount - 1 + 1 = box.partyCount := by omega
  have room : party ≤ box.partyCount - 1 := by omega
  rw [jointSum, shaped.sub_partyCount]
  refine Tuple.foldTuples_add_count _
    (fun otherInputs => ∑ otherOutputs ∈ Tuple.tuples box.outputRange (box.partyCount - 1),
      box.likelihood (otherInputs.insertIdx party asked) (otherOutputs.insertIdx party told))
    Word.limit shaped.total_others_lt fun otherInputs fits total count below => ?_
  have fullInput := whole ▸ fits.insertIdx askedInside room
  have summed := shaped.foldTuples_insertAt_eq present toldInside fullInput total
  have next : (Word.add count 1 : Attempt QueryError Nat) = .ok (count + 1) := if_pos below
  have placed : (Tuple.insertAt otherInputs party asked : Attempt QueryError (List Nat))
      = .ok (otherInputs.insertIdx party asked) := Tuple.insertAt_eq_ok (fits.1 ▸ room) asked
  exact (Attempt.bind_eq_ok_iff _ _ _).mpr ⟨_, next, (Attempt.bind_eq_ok_iff _ _ _).mpr
    ⟨_, placed, (Attempt.bind_eq_ok_iff _ _ _).mpr ⟨_, summed, rfl⟩⟩⟩

/-- The tuples that the joint sum puts together are those with the party's input and
output. -/
theorem Shaped.sum_others (_ : box.Shaped) {party asked told : Nat}
    (present : party < box.partyCount) (askedInside : asked < box.inputRange)
    (toldInside : told < box.outputRange) :
    ∑ otherInputs ∈ Tuple.tuples box.inputRange (box.partyCount - 1),
        ∑ otherOutputs ∈ Tuple.tuples box.outputRange (box.partyCount - 1),
          box.likelihood (otherInputs.insertIdx party asked) (otherOutputs.insertIdx party told)
      = ∑ input ∈ Tuple.tuples box.inputRange box.partyCount with input[party]? = some asked,
          ∑ output ∈ Tuple.tuples box.outputRange box.partyCount with output[party]? = some told,
            box.likelihood input output := by
  have whole : box.partyCount - 1 + 1 = box.partyCount := by omega
  have room : party ≤ box.partyCount - 1 := by omega
  rw [← whole, ← Tuple.sum_insertIdx askedInside room]
  apply Finset.sum_congr rfl
  intro otherInputs _
  exact Tuple.sum_insertIdx toldInside room _

/-- A query on one party divides the joint sum by the number of inputs of the others. -/
theorem Shaped.reducedProb_eq (shaped : box.Shaped) {party asked told : Nat}
    (present : party < box.partyCount) (askedInside : asked < box.inputRange)
    (toldInside : told < box.outputRange) :
    box.reducedProb party asked told
      = .ok ((∑ otherInputs ∈ Tuple.tuples box.inputRange (box.partyCount - 1),
            ∑ otherOutputs ∈ Tuple.tuples box.outputRange (box.partyCount - 1),
              box.likelihood (otherInputs.insertIdx party asked)
                (otherOutputs.insertIdx party told))
          / (Tuple.total box.inputRange (box.partyCount - 1) : Rat)) := by
  have summed := shaped.jointSum_eq present askedInside toldInside
  have asking : box.ensureValue .input asked = .ok () := if_pos askedInside
  have telling : box.ensureValue .output told = .ok () := if_pos toldInside
  rw [reducedProb, if_pos present]
  exact (Attempt.bind_eq_ok_iff _ _ _).mpr ⟨(), asking, (Attempt.bind_eq_ok_iff _ _ _).mpr
    ⟨(), telling, (Attempt.bind_eq_ok_iff _ _ _).mpr ⟨_, summed, rfl⟩⟩⟩

end Box

end Nonlocal
