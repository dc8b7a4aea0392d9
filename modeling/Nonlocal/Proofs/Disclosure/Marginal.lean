import Mathlib.Algebra.Order.BigOperators.Group.Finset
import Nonlocal.Proofs.Disclosure.Stage
import Nonlocal.Proofs.Validity.Exact

/-!
# Marginals of answers

Answers of some parties fix a part of the outputs, and their marginal probability sums
over all outputs that have this part. In an exact box it only depends on the inputs of
the parties that answer: changing the input of another party leaves every sum over that
party's outputs alone, and the marginal is made of such sums. One more answer splits a
marginal into those of its possible outputs.
-/

namespace Nonlocal

namespace Disclosure

/-- An input tuple has the inputs that the answers were given to. -/
def Asks (input : List Nat) (answers : List Answer) : Prop :=
  ∀ answer ∈ answers, input[answer.party]? = some answer.input

/-- An output tuple has the outputs of the answers. -/
def Tells (output : List Nat) (answers : List Answer) : Prop :=
  ∀ answer ∈ answers, output[answer.party]? = some answer.output

instance (output : List Nat) (answers : List Answer) : Decidable (Tells output answers) :=
  inferInstanceAs (Decidable (∀ answer ∈ answers, output[answer.party]? = some answer.output))

end Disclosure

open Disclosure

/-- The marginal probability of answers given an input tuple: the sum over all output
tuples with their outputs. -/
def Box.marginal (box : Box Rat) (input : List Nat) (answers : List Answer) :
    Except LookupError Rat := do
  let cells ← ((Tuple.walk box.outputRange box.partyCount).filter fun output =>
    Tells output answers).mapM (box.prob input)
  return cells.sum

namespace Disclosure

variable {box : Box Rat} {input output : List Nat} {answers : List Answer}

/-- The output tuples of a box with the outputs of the answers. -/
def telling (box : Box Rat) (answers : List Answer) : Finset (List Nat) :=
  (Tuple.tuples box.outputRange box.partyCount).filter (Tells · answers)

/-- The likelihoods of all output tuples with the outputs of the answers, summed. -/
def mass (box : Box Rat) (input : List Nat) (answers : List Answer) : Rat :=
  ∑ output ∈ telling box answers, box.likelihood input output

/-- The set holds the fitting tuples that tell the answers. -/
theorem mem_telling :
    output ∈ telling box answers
      ↔ Tuple.Fits box.outputRange box.partyCount output ∧ Tells output answers := by
  rw [telling, Finset.mem_filter, Tuple.mem_tuples]

/-- Every tuple tells no answers. -/
@[simp] theorem tells_nil (output : List Nat) : Tells output [] := by
  simp [Tells]

/-- One more answer is told at its party. -/
theorem tells_append (output : List Nat) (answers : List Answer) (answer : Answer) :
    Tells output (answers ++ [answer])
      ↔ Tells output answers ∧ output[answer.party]? = some answer.output := by
  simp [Tells, or_imp, forall_and]

/-- One more answer was asked at its party. -/
theorem asks_append (input : List Nat) (answers : List Answer) (answer : Answer) :
    Asks input (answers ++ [answer])
      ↔ Asks input answers ∧ input[answer.party]? = some answer.input := by
  simp [Asks, or_imp, forall_and]

/-- With fitting inputs the marginal is the sum of likelihoods. -/
theorem marginal_eq (shaped : box.Shaped)
    (fits : Tuple.Fits box.inputRange box.partyCount input) (answers : List Answer) :
    box.marginal input answers = .ok (mass box input answers) := by
  have looked := Attempt.mapM_eq_map (box.prob input) (box.likelihood input)
    ((Tuple.walk box.outputRange box.partyCount).filter fun output => Tells output answers)
    fun output member => shaped.prob_eq fits (Tuple.mem_walk.mp (List.mem_filter.mp member).1)
  have listed : mass box input answers
      = (((Tuple.walk box.outputRange box.partyCount).filter fun output =>
          Tells output answers).map (box.likelihood input)).sum := by
    rw [← List.sum_toFinset _ ((Tuple.nodup_walk _ _).filter _), List.toFinset_filter]
    simp only [mass, telling, Tuple.tuples, decide_eq_true_eq]
  rw [Box.marginal, looked, listed]
  rfl

/-- The order of the answers does not matter to their marginal. -/
theorem mass_perm {reordered : List Answer} (reorder : reordered.Perm answers) :
    mass box input reordered = mass box input answers := by
  have same : telling box reordered = telling box answers := by
    ext output
    simp only [mem_telling, Tells, reorder.mem_iff]
  rw [mass, mass, same]

/-- Possible answers are told by some fitting tuple. -/
theorem exists_tells_of_mass_pos (positive : 0 < mass box input answers) :
    ∃ output, Tuple.Fits box.outputRange box.partyCount output ∧ Tells output answers := by
  obtain ⟨output, member, -⟩ := Finset.exists_ne_zero_of_sum_ne_zero positive.ne'
  exact ⟨output, mem_telling.mp member⟩

/-- The marginals of the possible outputs of one more party sum to the marginal without
it. -/
theorem sum_mass_append (input : List Nat) (answers : List Answer) {question : Question}
    (present : question.party < box.partyCount) :
    ∑ output ∈ Finset.range box.outputRange,
        mass box input (answers ++ [question.answer output])
      = mass box input answers := by
  have split (output : Nat) : telling box (answers ++ [question.answer output])
      = (telling box answers).filter (·[question.party]? = some output) := by
    ext tuple
    rw [Finset.mem_filter, mem_telling, mem_telling, tells_append, Question.answer_party,
      Question.answer_output, and_assoc]
  simp only [mass, split]
  exact Tuple.sum_digit (fun output member => (mem_telling.mp member).1) present _

section

variable (exact : box.Exact)

include exact

/-- Marginals are not negative. -/
theorem mass_nonneg (input : List Nat) (answers : List Answer) : 0 ≤ mass box input answers :=
  Finset.sum_nonneg fun output _ => exact.nonneg input output

/-- One more answer makes a marginal no greater. -/
theorem mass_append_le (input : List Nat) (answers : List Answer) (answer : Answer) :
    mass box input (answers ++ [answer]) ≤ mass box input answers := by
  refine Finset.sum_le_sum_of_subset_of_nonneg ?_ fun output _ _ => exact.nonneg input output
  intro output member
  rw [mem_telling, tells_append] at member
  exact mem_telling.mpr ⟨member.1, member.2.1⟩

/-- Some output is given for certain. -/
theorem mass_nil (fits : Tuple.Fits box.inputRange box.partyCount input) :
    mass box input [] = 1 := by
  have everything : telling box [] = Tuple.tuples box.outputRange box.partyCount := by
    simp [telling]
  rw [mass, everything, exact.whole input fits]

/-- The marginal does not depend on the input of a party that does not answer: in the
tuples that tell the answers the output of that party is free, so the marginal counts
each sum over these outputs equally often. -/
theorem mass_set (fits : Tuple.Fits box.inputRange box.partyCount input) {party value : Nat}
    (present : party < box.partyCount) (inside : value < box.inputRange)
    (silent : ∀ answer ∈ answers, answer.party ≠ party) :
    mass box (input.set party value) answers = mass box input answers := by
  have within : ∀ output ∈ telling box answers,
      Tuple.Fits box.outputRange box.partyCount output := fun output member =>
    (mem_telling.mp member).1
  have free : ∀ output ∈ telling box answers, ∀ told < box.outputRange,
      output.set party told ∈ telling box answers := by
    intro output member told toldInside
    refine mem_telling.mpr ⟨(within output member).set toldInside party, ?_⟩
    intro answer answerMember
    rw [List.getElem?_set_ne (silent answer answerMember).symm]
    exact (mem_telling.mp member).2 answer answerMember
  have repeated : (box.outputRange : Rat) * mass box (input.set party value) answers
      = box.outputRange * mass box input answers := by
    calc (box.outputRange : Rat) * mass box (input.set party value) answers
        = ∑ output ∈ telling box answers, ∑ told ∈ Finset.range box.outputRange,
            box.likelihood (input.set party value) (output.set party told) :=
          (Tuple.sum_set within present free _).symm
      _ = ∑ output ∈ telling box answers, ∑ told ∈ Finset.range box.outputRange,
            box.likelihood input (output.set party told) :=
          Finset.sum_congr rfl fun output member =>
            exact.silent input output party value fits (within output member) present inside
      _ = box.outputRange * mass box input answers := Tuple.sum_set within present free _
  have counted : (box.outputRange : Rat) ≠ 0 :=
    Nat.cast_ne_zero.mpr exact.shaped.outputRanged.ne'
  exact mul_left_cancel₀ counted repeated

/-- Input tuples that differ at most at some positions, and nowhere at a party that
answers, have the same marginal. The induction takes over one of these positions after
another. -/
theorem mass_eq_of_differ (positions : List Nat) {left right : List Nat}
    (leftFits : Tuple.Fits box.inputRange box.partyCount left)
    (rightFits : Tuple.Fits box.inputRange box.partyCount right)
    (asked : ∀ answer ∈ answers, left[answer.party]? = right[answer.party]?)
    (elsewhere : ∀ party, party ∉ positions → left[party]? = right[party]?) :
    mass box left answers = mass box right answers := by
  induction positions generalizing left with
  | nil =>
    obtain rfl : left = right := List.ext_getElem? fun party => elsewhere party (by simp)
    rfl
  | cons position rest inductionHypothesis =>
    by_cases same : left[position]? = right[position]?
    · apply inductionHypothesis leftFits asked
      intro party outside
      by_cases here : party = position
      · rw [here, same]
      · exact elsewhere party (by simp [here, outside])
    · have present : position < box.partyCount := by
        by_contra absent
        exact same ((leftFits.getElem?_eq_none absent).trans
          (rightFits.getElem?_eq_none absent).symm)
      obtain ⟨value, inside, found⟩ := rightFits.exists_digit present
      have silent : ∀ answer ∈ answers, answer.party ≠ position := by
        rintro answer member rfl
        exact same (asked answer member)
      have replaced (party : Nat) : (left.set position value)[party]?
          = if party = position then right[party]? else left[party]? := by
        by_cases here : party = position
        · rw [if_pos here, here, found, List.getElem?_set_self (by rw [leftFits.1]; exact present)]
        · rw [if_neg here, List.getElem?_set_ne (Ne.symm here)]
      rw [← mass_set exact leftFits present inside silent]
      refine inductionHypothesis (leftFits.set inside position) ?_ ?_
      · intro answer member
        rw [replaced, if_neg (silent answer member), asked answer member]
      · intro party outside
        rw [replaced]
        split
        · rfl
        · next here => exact elsewhere party (by simp [here, outside])

/-- The marginal of answers only depends on the inputs that they were given to. -/
theorem mass_eq_of_asks {left right : List Nat}
    (leftFits : Tuple.Fits box.inputRange box.partyCount left)
    (rightFits : Tuple.Fits box.inputRange box.partyCount right)
    (leftAsks : Asks left answers) (rightAsks : Asks right answers) :
    mass box left answers = mass box right answers := by
  refine mass_eq_of_differ exact (List.range box.partyCount) leftFits rightFits ?_ ?_
  · intro answer member
    rw [leftAsks answer member, rightAsks answer member]
  · intro party outside
    rw [List.mem_range] at outside
    rw [leftFits.getElem?_eq_none outside, rightFits.getElem?_eq_none outside]

end

/-- If all parties have answered, only one tuple tells the answers. -/
theorem mass_of_all (fits : Tuple.Fits box.outputRange box.partyCount output)
    (tells : Tells output answers) (distinct : (answers.map Answer.party).Nodup)
    (all : answers.length = box.partyCount) :
    mass box input answers = box.likelihood input output := by
  have present : answers.map Answer.party ⊆ List.range box.partyCount := by
    intro party member
    obtain ⟨answer, answerMember, rfl⟩ := List.mem_map.mp member
    exact List.mem_range.mpr (fits.lt_of_getElem? (tells answer answerMember)).1
  have covering : (answers.map Answer.party).Perm (List.range box.partyCount) :=
    (List.subperm_of_subset distinct present).perm_of_length_le (by simp [all])
  have alone : telling box answers = {output} := by
    ext other
    rw [mem_telling, Finset.mem_singleton]
    constructor
    · rintro ⟨otherFits, otherTells⟩
      apply otherFits.ext fits
      intro party inside
      obtain ⟨answer, member, rfl⟩ :=
        List.mem_map.mp (covering.mem_iff.mpr (List.mem_range.mpr inside))
      rw [otherTells answer member, tells answer member]
    · rintro rfl
      exact ⟨fits, tells⟩
  rw [mass, alone, Finset.sum_singleton]

end Disclosure

end Nonlocal
