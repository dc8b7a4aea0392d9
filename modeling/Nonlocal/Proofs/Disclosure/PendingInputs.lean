import Nonlocal.Proofs.Disclosure.Conditional

/-!
# Inputs of pending parties do not matter

A query on known outputs is asked at one input tuple, although the inputs of the pending
parties are not known yet. In an exact box the answer does not depend on them: each sum
of the query leaves the outputs of these parties free, so it is the marginal of the
answers of all other parties, and a marginal only depends on the inputs of those who
answer. The validity check compares one party's input with input 0 at a time; that many
inputs may change at once is an induction over the changed parties.

If all parties are pending, only the candidate's input is left to matter, and the query
comes to the averaged marginal that first answers are weighted with.
-/

namespace Nonlocal

namespace Disclosure

variable {box : Box Rat} {input output left right rest : List Nat}

/-- What the parties outside some positions answer, read off an input and an output
tuple. -/
def answersOutside (box : Box Rat) (positions input output : List Nat) : List Answer :=
  ((List.range box.partyCount).filter (· ∉ positions)).map fun party =>
    ⟨party, input[party]?.getD 0, output[party]?.getD 0⟩

/-- Every party of the box outside the positions has its answer. -/
theorem mem_answersOutside {positions : List Nat} {answer : Answer} :
    answer ∈ answersOutside box positions input output
      ↔ answer.party < box.partyCount ∧ answer.party ∉ positions
        ∧ answer.input = input[answer.party]?.getD 0
        ∧ answer.output = output[answer.party]?.getD 0 := by
  simp only [answersOutside, List.mem_map, List.mem_filter, List.mem_range, decide_eq_true_eq]
  constructor
  · rintro ⟨party, ⟨inside, outside⟩, rfl⟩
    exact ⟨inside, outside, rfl, rfl⟩
  · rintro ⟨inside, outside, sameInput, sameOutput⟩
    refine ⟨answer.party, ⟨inside, outside⟩, ?_⟩
    rw [← sameInput, ← sameOutput]

/-- Summing parties out comes to the marginal of what the others answer. -/
theorem summedOut_eq_mass (shaped : box.Shaped)
    (inputFits : Tuple.Fits box.inputRange box.partyCount input)
    (outputFits : Tuple.Fits box.outputRange box.partyCount output)
    (present : ∀ party ∈ rest, party < box.partyCount) (distinct : rest.Nodup)
    (asked : List Nat) :
    box.summedOut input output rest
      = .ok (mass box input (answersOutside box rest asked output)) := by
  rw [shaped.summedOut_eq inputFits outputFits present distinct, matching_eq_telling]
  · rfl
  · intro answer member
    obtain ⟨inside, -, -, told⟩ := mem_answersOutside.mp member
    obtain ⟨digit, -, found⟩ := outputFits.exists_digit inside
    rw [told, found]
    rfl
  · exact fun answer member => (mem_answersOutside.mp member).1
  · intro party inside
    constructor
    · rintro isFree answer member rfl
      exact (mem_answersOutside.mp member).2.1 isFree
    · intro silent
      by_contra outside
      exact silent ⟨party, asked[party]?.getD 0, output[party]?.getD 0⟩
        (mem_answersOutside.mpr ⟨inside, outside, rfl, rfl⟩) rfl

/-- Inputs ask the answers of the parties at which they agree with the inputs that the
answers were read off. -/
theorem asks_answersOutside (fits : Tuple.Fits box.inputRange box.partyCount left)
    (agree : ∀ party, party ∉ rest → left[party]? = right[party]?) :
    Asks left (answersOutside box rest right output) := by
  intro answer member
  obtain ⟨inside, outside, asked, -⟩ := mem_answersOutside.mp member
  obtain ⟨digit, -, found⟩ := fits.exists_digit inside
  rw [asked, ← agree answer.party outside, found]
  rfl

section

variable (exact : box.Exact) (leftFits : Tuple.Fits box.inputRange box.partyCount left)
  (rightFits : Tuple.Fits box.inputRange box.partyCount right)
  (agree : ∀ party, party ∉ rest → left[party]? = right[party]?)
  (present : ∀ party ∈ rest, party < box.partyCount) (distinct : rest.Nodup)

include exact leftFits rightFits agree present distinct

/-- The inputs of parties that are summed out of fitting outputs do not matter. -/
theorem summedOut_eq_of_fits (outputFits : Tuple.Fits box.outputRange box.partyCount output) :
    box.summedOut left output rest = box.summedOut right output rest := by
  rw [summedOut_eq_mass exact.shaped leftFits outputFits present distinct right,
    summedOut_eq_mass exact.shaped rightFits outputFits present distinct right,
    mass_eq_of_asks exact leftFits rightFits (asks_answersOutside leftFits agree)
      (asks_answersOutside rightFits fun _ _ => rfl)]

/-- Nor do they matter for any other outputs. Whether these fit at the positions that are
summed out does not show, since they are overwritten there; if they do not fit elsewhere,
the first lookup fails whatever the inputs are. -/
theorem summedOut_eq_of_agree (output : List Nat) :
    box.summedOut left output rest = box.summedOut right output rest := by
  by_cases fitsElsewhere : ∃ other, Tuple.Fits box.outputRange box.partyCount other
      ∧ output.length = other.length ∧ ∀ party, party ∉ rest → output[party]? = other[party]?
  · obtain ⟨other, otherFits, sameLength, same⟩ := fitsElsewhere
    rw [Box.summedOut_congr left sameLength same, Box.summedOut_congr right sameLength same]
    exact summedOut_eq_of_fits exact leftFits rightFits agree present distinct otherFits
  · apply Tuple.foldTuples_congr
    intro values fits total
    have unfit : ¬ Tuple.Fits box.outputRange box.partyCount
        (Box.overwrite output rest values) := fun overwrittenFits =>
      fitsElsewhere ⟨_, overwrittenFits, (Box.length_overwrite ..).symm,
        fun party outside => (Box.overwrite_getElem? values outside).symm⟩
    obtain ⟨error, failed⟩ := exact.shaped.prob_of_not_fits unfit
    rw [Box.queryProb, Box.queryProb, failed left leftFits, failed right rightFits]

end

/-- If all parties are pending, the query on known outputs comes to the marginal of the
candidate. -/
theorem normalisedProb_all (exact : box.Exact) {party asked told : Nat} {others : List Nat}
    (all : (party :: others).Perm (List.range box.partyCount))
    (inputFits : Tuple.Fits box.inputRange box.partyCount input)
    (outputFits : Tuple.Fits box.outputRange box.partyCount output)
    (isTold : output[party]? = some told) :
    box.normalisedProb input output (party :: others)
      = .ok (mass box input [⟨party, asked, told⟩]) := by
  have present : ∀ other ∈ party :: others, other < box.partyCount := fun other member =>
    List.mem_range.mp (all.mem_iff.mp member)
  have distinct : (party :: others).Nodup := all.nodup_iff.mpr List.nodup_range
  have covered : ∀ other < box.partyCount, other ∈ party :: others := fun other inside =>
    all.mem_iff.mpr (List.mem_range.mpr inside)
  have alone : box.matching others output = telling box [⟨party, asked, told⟩] := by
    apply matching_eq_telling
    · simpa [Tells] using isTold
    · simpa using present party List.mem_cons_self
    · intro other inside
      have listed := covered other inside
      rw [List.mem_cons] at listed
      constructor
      · rintro isOther answer member rfl
        obtain rfl := List.mem_singleton.mp member
        exact (List.nodup_cons.mp distinct).1 isOther
      · intro different
        exact listed.resolve_left fun same => different _ List.mem_cons_self same.symm
  have everything : box.matching (party :: others) output = telling box [] := by
    apply matching_eq_telling (tells_nil output) (by simp)
    intro other inside
    simpa using covered other inside
  rw [exact.shaped.normalisedProb_eq inputFits outputFits present distinct, alone, everything,
    ← mass, ← mass, mass_nil exact inputFits, div_one]

/-- In a box that is valid at tolerance 0, queries on known outputs do not depend on the
inputs of the pending parties other than the candidate, and if all parties are pending,
they agree with the queries that weight first answers. -/
theorem pending_inputs_irrelevant {box : Box Rat} (valid : Validity.validate box 0 = .ok ()) :
    (∀ (candidate : Nat) (rest output left right : List Nat),
      (candidate :: rest).Nodup → (∀ party ∈ candidate :: rest, party < box.partyCount) →
      Tuple.Fits box.inputRange box.partyCount left →
      Tuple.Fits box.inputRange box.partyCount right →
      (∀ party, party ∉ rest → left[party]? = right[party]?) →
      box.normalisedProb left output (candidate :: rest)
          = box.normalisedProb right output (candidate :: rest)
        ∧ (Tuple.Fits box.outputRange box.partyCount output →
          ∃ p, box.normalisedProb left output (candidate :: rest) = .ok p))
    ∧ ∀ (party asked told : Nat) (others input output : List Nat),
      (party :: others).Perm (List.range box.partyCount) →
      Tuple.Fits box.inputRange box.partyCount input →
      Tuple.Fits box.outputRange box.partyCount output →
      input[party]? = some asked → output[party]? = some told →
      ∃ p, box.reducedProb party asked told = .ok p
        ∧ box.normalisedProb input output (party :: others) = .ok p := by
  have exact := Validity.exact_of_validate (Validity.shaped_of_validate valid) valid
  constructor
  · intro candidate rest output left right distinct present leftFits rightFits agree
    refine ⟨?_, fun fits => exact.shaped.exists_normalisedProb leftFits fits present distinct⟩
    have same : (fun output => box.summedOut left output rest)
        = fun output => box.summedOut right output rest :=
      funext (summedOut_eq_of_agree exact leftFits rightFits agree
        (fun party member => present party (List.mem_cons_of_mem candidate member))
        (List.nodup_cons.mp distinct).2)
    simp only [Box.normalisedProb, congrFun same]
  · intro party asked told others input output all inputFits outputFits isAsked isTold
    obtain ⟨present, inside⟩ := inputFits.lt_of_getElem? isAsked
    have candidate := (outputFits.lt_of_getElem? isTold).2
    have averaged :=
      @reducedProb_eq_mass box ⟨party, asked⟩ input exact told present inside candidate inputFits
        isAsked
    exact ⟨_, averaged, normalisedProb_all exact all inputFits outputFits isTold⟩

/-- When nobody has answered in the correlated box and the first party is asked with 1, it
does not matter which input the second party will have, and both queries give the same. -/
theorem correlated_pending_input :
    (Box.correlated 0 (1 / 2) : Box Rat).normalisedProb [1, 0] [0, 1] [0, 1]
        = (Box.correlated 0 (1 / 2) : Box Rat).normalisedProb [1, 1] [0, 1] [0, 1]
      ∧ ∃ p, (Box.correlated 0 (1 / 2) : Box Rat).reducedProb 0 1 0 = .ok p
        ∧ (Box.correlated 0 (1 / 2) : Box Rat).normalisedProb [1, 1] [0, 1] [0, 1] = .ok p := by
  have valid : Validity.validate (Box.correlated 0 (1 / 2) : Box Rat) 0 = .ok () :=
    Attempt.eq_ok_of_toOption (by decide +kernel)
  obtain ⟨independent, agreeing⟩ := pending_inputs_irrelevant valid
  have agree : ∀ party, party ∉ [1] → [1, 0][party]? = [1, 1][party]? := by
    rintro (_ | _ | party) outside
    · rfl
    · simp at outside
    · rfl
  refine ⟨(independent 0 [1] [0, 1] [1, 0] [1, 1] (by decide) (by decide) ⟨rfl, by decide⟩
    ⟨rfl, by decide⟩ agree).1, ?_⟩
  exact agreeing 0 1 0 [1] [1, 1] [0, 1] (.refl _) ⟨rfl, by decide⟩ ⟨rfl, by decide⟩ rfl rfl

end Disclosure

end Nonlocal
