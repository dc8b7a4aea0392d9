import Mathlib.Algebra.BigOperators.Field
import Mathlib.Algebra.Order.Field.Basic
import Nonlocal.Proofs.Box.Queries
import Nonlocal.Proofs.Disclosure.Marginal
import Nonlocal.Proofs.Disclosure.Weights

/-!
# Queries are conditional probabilities

Two different computations answer the queries. The first output is weighted with a sum
over all inputs and outputs of the others, divided by the number of their inputs; a
later one with a sum over the outputs of the pending parties at inputs where these are
fixed at 0, divided by such sums over all outputs of the asked party. In an exact box
both come to the same: the marginal of the answers with the new one, over the marginal
without it.
-/

namespace Nonlocal

namespace Disclosure

variable {box : Box Rat} {stage : Stage} {question : Question} {input : List Nat}
  {answers : List Answer}

/-- The outputs of a query at one party. -/
theorem queryOutput_getElem? {parties party : Nat} (present : party < parties)
    (answers : List Answer) (question : Question) (output : Nat) :
    (queryOutput parties answers question output)[party]?
      = some (if party = question.party then output else (told? answers party).getD 0) := by
  simp [queryOutput, present]

/-- The inputs of a query at one party. -/
theorem queryInput_getElem? {parties party : Nat} (present : party < parties)
    (answers : List Answer) (question : Question) :
    (queryInput parties answers question)[party]?
      = some (if party = question.party then question.input
          else (asked? answers party).getD 0) := by
  simp [queryInput, present]

/-- A party that has answered is not the one that is awaited. -/
theorem Stage.Sound.party_ne (sound : stage.Sound box) (awaited : stage.awaiting = some question)
    {answer : Answer} (member : answer ∈ stage.answers) : answer.party ≠ question.party :=
  answerOf?_eq_none.mp (sound.awaiting question awaited).2.2 answer member

/-- A query is made with a tuple of inputs. -/
theorem Stage.Sound.queryInput_fits (sound : stage.Sound box)
    (awaited : stage.awaiting = some question) :
    Tuple.Fits box.inputRange box.partyCount
      (queryInput box.partyCount stage.answers question) :=
  Disclosure.queryInput_fits (fun answer member => (sound.answers answer member).2.1)
    (sound.awaiting question awaited).2.1

/-- A query is made with the inputs that the answers were given to, and with the one that
is asked. -/
theorem Stage.Sound.asks_queryInput (sound : stage.Sound box)
    (awaited : stage.awaiting = some question) (output : Nat) :
    Asks (queryInput box.partyCount stage.answers question)
      (stage.answers ++ [question.answer output]) := by
  rw [asks_append, Question.answer_party, Question.answer_input,
    queryInput_getElem? (sound.awaiting question awaited).1, if_pos rfl]
  refine ⟨fun answer member => ?_, rfl⟩
  rw [queryInput_getElem? (sound.answers answer member).1,
    if_neg (sound.party_ne awaited member), asked?, answerOf?_of_mem sound.distinct member]
  rfl

/-- The tuples in which the parties without an answer are free are those that tell the
answers. -/
theorem matching_eq_telling {positions output : List Nat} (tells : Tells output answers)
    (present : ∀ answer ∈ answers, answer.party < box.partyCount)
    (free : ∀ party < box.partyCount,
      party ∈ positions ↔ ∀ answer ∈ answers, answer.party ≠ party) :
    box.matching positions output = telling box answers := by
  ext tuple
  rw [Box.mem_matching, mem_telling]
  apply and_congr_right
  intro fits
  constructor
  · intro same answer member
    have outside : answer.party ∉ positions := fun isFree =>
      (free _ (present answer member)).mp isFree answer member rfl
    rw [same answer.party (present answer member) outside, tells answer member]
  · intro told party inside outside
    obtain ⟨answer, member, rfl⟩ : ∃ answer ∈ answers, answer.party = party := by
      simpa using (free party inside).not.mp outside
    rw [told answer member, tells answer member]

/-- A query is made with the outputs of the answers. -/
theorem Stage.Sound.tells_queryOutput (sound : stage.Sound box)
    (awaited : stage.awaiting = some question) (output : Nat) :
    Tells (queryOutput box.partyCount stage.answers question output) stage.answers := by
  intro answer member
  rw [queryOutput_getElem? (sound.answers answer member).1, if_neg (sound.party_ne awaited member),
    told?, answerOf?_of_mem sound.distinct member]
  rfl

/-- A later query divides the marginal with the candidate value by the one without. -/
theorem normalisedProb_eq_mass (exact : box.Exact) (sound : stage.Sound box)
    (awaited : stage.awaiting = some question) {output : Nat}
    (candidate : output < box.outputRange) :
    box.normalisedProb (queryInput box.partyCount stage.answers question)
        (queryOutput box.partyCount stage.answers question output)
        (queryPending box.partyCount stage.answers question)
      = .ok (mass box (queryInput box.partyCount stage.answers question)
            (stage.answers ++ [question.answer output])
          / mass box (queryInput box.partyCount stage.answers question) stage.answers) := by
  obtain ⟨present, -, silent⟩ := sound.awaiting question awaited
  have outputFits : Tuple.Fits box.outputRange box.partyCount
      (queryOutput box.partyCount stage.answers question output) :=
    queryOutput_fits (fun answer member => (sound.answers answer member).2.2) candidate
  have answered : ∀ answer ∈ stage.answers, answer.party < box.partyCount :=
    fun answer member => (sound.answers answer member).1
  have told := sound.tells_queryOutput awaited output
  have without : box.matching (queryPending box.partyCount stage.answers question)
        (queryOutput box.partyCount stage.answers question output)
      = telling box stage.answers := by
    apply matching_eq_telling told answered
    intro party inside
    rw [← answerOf?_eq_none]
    by_cases same : party = question.party
    · simp [queryPending, same, silent]
    · simp [queryPending, inside, same]
  have withCandidate : box.matching ((List.range box.partyCount).filter fun party =>
        (answerOf? stage.answers party).isNone && party != question.party)
        (queryOutput box.partyCount stage.answers question output)
      = telling box (stage.answers ++ [question.answer output]) := by
    apply matching_eq_telling
    · rw [tells_append]
      exact ⟨told, by rw [Question.answer_party, queryOutput_getElem? present, if_pos rfl]; rfl⟩
    · simpa [or_imp, forall_and] using ⟨answered, present⟩
    · intro party inside
      simp [inside, or_imp, forall_and, answerOf?_eq_none, @eq_comm Nat party]
  rw [queryPending, exact.shaped.normalisedProb_eq (sound.queryInput_fits awaited) outputFits,
    withCandidate, ← queryPending, without]
  · rfl
  · simpa [present] using fun party inside _ _ => inside
  · simpa using List.nodup_range.filter _

/-- The marginal of a single answer sums over the outputs of the others. -/
theorem mass_single (input : List Nat) {output : Nat} (present : question.party < box.partyCount)
    (inside : output < box.outputRange) :
    mass box input [question.answer output]
      = ∑ otherOutputs ∈ Tuple.tuples box.outputRange (box.partyCount - 1),
          box.likelihood input (otherOutputs.insertIdx question.party output) := by
  have whole : box.partyCount - 1 + 1 = box.partyCount := by omega
  have room : question.party ≤ box.partyCount - 1 := by omega
  rw [Tuple.sum_insertIdx inside room (box.likelihood input), whole, mass, telling]
  simp [Tells]

/-- The first query averages marginals over the inputs of the others, all of which are the
same. -/
theorem reducedProb_eq_mass (exact : box.Exact) {output : Nat}
    (present : question.party < box.partyCount) (inside : question.input < box.inputRange)
    (candidate : output < box.outputRange)
    (fits : Tuple.Fits box.inputRange box.partyCount input)
    (asked : input[question.party]? = some question.input) :
    box.reducedProb question.party question.input output
      = .ok (mass box input [question.answer output]) := by
  have whole : box.partyCount - 1 + 1 = box.partyCount := by omega
  have room : question.party ≤ box.partyCount - 1 := by omega
  have alike : ∀ otherInputs ∈ Tuple.tuples box.inputRange (box.partyCount - 1),
      ∑ otherOutputs ∈ Tuple.tuples box.outputRange (box.partyCount - 1),
          box.likelihood (otherInputs.insertIdx question.party question.input)
            (otherOutputs.insertIdx question.party output)
        = mass box input [question.answer output] := by
    intro otherInputs member
    have otherFits := Tuple.mem_tuples.mp member
    rw [← mass_single _ present candidate]
    refine mass_eq_of_asks exact (whole ▸ otherFits.insertIdx inside room) fits ?_ ?_
    · simp [Asks, List.getElem?_insertIdx_self, otherFits.1, room]
    · simpa [Asks] using asked
  have counted : (Tuple.total box.inputRange (box.partyCount - 1) : Rat) ≠ 0 :=
    Nat.cast_ne_zero.mpr (Nat.pow_pos exact.shaped.inputRanged).ne'
  rw [exact.shaped.reducedProb_eq present inside candidate, Finset.sum_congr rfl alike,
    Finset.sum_const, Tuple.card_tuples, nsmul_eq_mul, mul_div_cancel_left₀ _ counted]

/-- Leaving out what has no probability leaves a sum unchanged. -/
theorem sum_filter_positive (pairs : List (Nat × Rat)) (nonnegative : ∀ pair ∈ pairs, 0 ≤ pair.2) :
    ((pairs.filter (0 < ·.2)).map Prod.snd).sum = (pairs.map Prod.snd).sum := by
  induction pairs with
  | nil => rfl
  | cons pair rest inductionHypothesis =>
    have later := inductionHypothesis fun other member =>
      nonnegative other (List.mem_cons_of_mem pair member)
    by_cases positive : 0 < pair.2
    · simp [positive, later]
    · have vanishes : pair.2 = 0 :=
        le_antisymm (not_lt.mp positive) (nonnegative pair List.mem_cons_self)
      simp [later, vanishes]

/-- The conditional probabilities of the outputs that may answer a question. -/
def conditionals (box : Box Rat) (input : List Nat) (answers : List Answer)
    (question : Question) : List (Nat × Rat) :=
  (List.range box.outputRange).map fun output =>
    (output, mass box input (answers ++ [question.answer output]) / mass box input answers)

/-- The conditional probabilities of all outputs sum to 1. -/
theorem sum_conditionals (present : question.party < box.partyCount)
    (positive : 0 < mass box input answers) :
    ((conditionals box input answers question).map Prod.snd).sum = 1 := by
  have whole := sum_mass_append input answers present
  rw [conditionals, List.map_map]
  change ∑ output ∈ Finset.range box.outputRange,
    mass box input (answers ++ [question.answer output]) / mass box input answers = 1
  rw [← Finset.sum_div, whole, div_self positive.ne']

/-- Conditional probabilities are not negative. -/
theorem conditionals_nonneg (exact : box.Exact) :
    ∀ pair ∈ conditionals box input answers question, 0 ≤ pair.2 := by
  intro pair member
  obtain ⟨output, -, rfl⟩ := List.mem_map.mp member
  exact div_nonneg (mass_nonneg exact _ _) (mass_nonneg exact _ _)

section

variable (exact : box.Exact) (sound : stage.Sound box) (awaited : stage.awaiting = some question)
  (fits : Tuple.Fits box.inputRange box.partyCount input) (asks : Asks input stage.answers)
  (asked : input[question.party]? = some question.input)

include exact sound awaited fits asks asked

/-- A question is answered with the conditional probability of the answer. -/
theorem chance_eq_mass {output : Nat} (candidate : output < box.outputRange) :
    chance box stage.answers question output
      = .ok (mass box input (stage.answers ++ [question.answer output])
          / mass box input stage.answers) := by
  obtain ⟨present, inside, -⟩ := sound.awaiting question awaited
  have queryAsks := sound.asks_queryInput awaited output
  have queryFits := sound.queryInput_fits awaited
  have sameWith := mass_eq_of_asks exact queryFits fits queryAsks
    ((asks_append _ _ _).mpr ⟨asks, asked⟩)
  have sameWithout := mass_eq_of_asks exact queryFits fits
    ((asks_append _ _ _).mp queryAsks).1 asks
  unfold chance
  split
  · next nobody =>
    have first : stage.answers = [] := by simpa using nobody
    rw [reducedProb_eq_mass exact present inside candidate fits asked, first, mass_nil exact fits,
      List.nil_append, div_one]
  · rw [normalisedProb_eq_mass exact sound awaited candidate, sameWith, sameWithout]

/-- The weights of a question are the positive conditional probabilities; rescaling the
first ones changes nothing, since they sum to 1. -/
theorem weights_eq_conditionals (positive : 0 < mass box input stage.answers) :
    weights box stage.answers question
      = .ok ((conditionals box input stage.answers question).filter (0 < ·.2)) := by
  obtain ⟨present, -, -⟩ := sound.awaiting question awaited
  have listed : positiveValues box.outputRange (chance box stage.answers question)
      = .ok ((conditionals box input stage.answers question).filter (0 < ·.2)) :=
    positiveValues_eq fun output => chance_eq_mass exact sound awaited fits asks asked
  have total : rowTotal
      (((conditionals box input stage.answers question).filter (0 < ·.2)).map Prod.snd) = 1 := by
    rw [Validity.rowTotal_eq_sum, sum_filter_positive _ (conditionals_nonneg exact),
      sum_conditionals present positive]
  refine (Attempt.bind_eq_ok_iff _ _ _).mpr ⟨_, listed, ?_⟩
  split
  · simp [total, pure, Except.pure]
  · rfl

/-- What may answer a question: every output with which the answers stay possible, with
its conditional probability. -/
theorem discloses_iff (positive : 0 < mass box input stage.answers) (output : Nat)
    (weight : Rat) :
    Discloses box stage.answers question output weight
      ↔ output < box.outputRange
        ∧ 0 < mass box input (stage.answers ++ [question.answer output])
        ∧ weight = mass box input (stage.answers ++ [question.answer output])
            / mass box input stage.answers := by
  have weighted := weights_eq_conditionals exact sound awaited fits asks asked positive
  have listed : Discloses box stage.answers question output weight
      ↔ (output, weight) ∈ conditionals box input stage.answers question ∧ 0 < weight := by
    simp [Discloses, weighted]
  rw [listed]
  constructor
  · rintro ⟨member, weightPositive⟩
    obtain ⟨_, inside, same⟩ := List.mem_map.mp member
    obtain ⟨rfl, rfl⟩ := Prod.mk.inj same
    exact ⟨List.mem_range.mp inside, (div_pos_iff_of_pos_right positive).mp weightPositive, rfl⟩
  · rintro ⟨inside, possible, rfl⟩
    exact ⟨List.mem_map.mpr ⟨output, List.mem_range.mpr inside, rfl⟩, div_pos possible positive⟩

end

end Disclosure

end Nonlocal
