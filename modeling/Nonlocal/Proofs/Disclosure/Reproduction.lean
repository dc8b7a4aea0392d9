import Nonlocal.Proofs.Disclosure.Conditional
import Nonlocal.Proofs.Disclosure.Observation

/-!
# The model reproduces the box

In the model of an exact box every disclosure is weighted with the conditional
probability of the new answer given those before. The weights along a run therefore
multiply up to the marginal probability of its answers, whatever the order in which the
parties were asked, and the answers that runs disclose are those with a positive
marginal.
-/

namespace Nonlocal

/-- The number that a weight stands for. -/
def Weight.value : Weight Rat → Rat
  | .ratio numerator denominator => numerator / denominator
  | .decimal probability => probability

/-- The product of the weights with which the outputs of a trace are disclosed. -/
def pathProbability (trace : List (Transition Rat)) : Rat :=
  ((disclosures trace).map (·.branch.weight.value)).prod

/-- What is recorded of the disclosures of one step. -/
theorem record_disclosures_singleton {α : Type} (transition : Transition α) :
    (disclosures [transition]).map Firing.record
      = (transition.firings.map Firing.record).filter (·.1.discloses) := by
  simp [disclosures, Firing.record, List.filter_map, Function.comp_def]

/-- One more step multiplies the probability by the weights of its disclosures. -/
theorem pathProbability_append (trace : List (Transition Rat)) (transition : Transition Rat) :
    pathProbability (trace ++ [transition])
      = pathProbability trace
        * (((transition.firings.map Firing.record).filter (·.1.discloses)).map
            (·.2.value)).prod := by
  rw [← record_disclosures_singleton, pathProbability, disclosures_append, List.map_append,
    List.prod_append, List.map_map]
  rfl

namespace Disclosure

variable {α : Type}

/-- The answer of a party that a step discloses: the output is unset before the step and
set after it, and the input is the one that was recorded. -/
def answer? (box : Box α) (transition : Transition α) (party : Nat) : Option Answer := do
  let input ← box.inputs[party]?
  let output ← box.outputs[party]?
  let asked ← transition.after.count? (Identifier.seenVariable input)
  let told ← transition.after.count? output
  if (transition.before.count? output).isSome then none else some ⟨party, asked, told⟩

/-- The answers that the steps of a trace disclose, in their order. -/
def recorded (box : Box α) (trace : List (Transition α)) : List Answer :=
  trace.flatMap fun transition => (List.range box.partyCount).filterMap (answer? box transition)

/-- The families of the commands that disclose so many outputs one after another. -/
def disclosingFamilies : (count : Nat) → List Family
  | 0 => []
  | count + 1 => .reduced :: List.replicate count .normalised

/-- The next output is disclosed by the family that comes next. -/
theorem disclosingFamilies_succ (answers : List Answer) :
    disclosingFamilies (answers.length + 1)
      = disclosingFamilies answers.length ++ [familyAfter answers] := by
  cases answers with
  | nil => rfl
  | cons answer rest => simp [disclosingFamilies, familyAfter, List.replicate_succ']

section

variable {box : Box α} {stage next : Stage} {transition : Transition α} {party : Nat}

/-- What a step discloses is read off the stages before and after it. -/
theorem answer?_eq (shaped : box.Shaped) (storable : box.Storable) (sound : stage.Sound box)
    (soundNext : next.Sound box) (shown : stage.Shown box transition.before)
    (shownNext : next.Shown box transition.after) (present : party < box.partyCount) :
    answer? box transition party
      = if (told? stage.answers party).isSome then none
        else (next.seen? party).bind fun asked =>
          (told? next.answers party).map fun told => ⟨party, asked, told⟩ := by
  obtain ⟨input, inputNamed⟩ := shaped.exists_input present
  obtain ⟨output, outputNamed⟩ := shaped.exists_output present
  have asked := shownNext.count?_seen soundNext shaped storable inputNamed
  have told := shownNext.count?_output soundNext shaped storable outputNamed
  have before := shown.count?_output sound shaped storable outputNamed
  simp only [answer?, inputNamed, outputNamed, asked, told, before, bind, Option.bind_some]
  cases next.seen? party <;> cases told? next.answers party <;>
    cases told? stage.answers party <;> rfl

/-- A step that keeps the answers discloses none. -/
theorem filterMap_answer?_of_kept (shaped : box.Shaped) (storable : box.Storable)
    (sound : stage.Sound box) (soundNext : next.Sound box)
    (shown : stage.Shown box transition.before) (shownNext : next.Shown box transition.after)
    (kept : next.answers = stage.answers) :
    (List.range box.partyCount).filterMap (answer? box transition) = [] := by
  rw [List.filterMap_eq_nil_iff]
  intro party member
  rw [answer?_eq shaped storable sound soundNext shown shownNext (List.mem_range.mp member), kept]
  cases told? stage.answers party with
  | none => simp
  | some told => rfl

/-- Reading a range for one of its numbers finds one result. -/
theorem filterMap_range_eq_singleton {β : Type} {count index : Nat} (inside : index < count)
    (result : β) :
    (List.range count).filterMap (fun other => if other = index then some result else none)
      = [result] := by
  induction count with
  | zero => omega
  | succ count inductionHypothesis =>
    rw [List.range_succ, List.filterMap_append]
    by_cases last : index = count
    · have before : (List.range count).filterMap
          (fun other => if other = index then some result else none) = [] := by
        rw [List.filterMap_eq_nil_iff]
        intro other member
        rw [List.mem_range] at member
        exact if_neg (by omega)
      rw [before]
      simp [last]
    · rw [inductionHypothesis (by omega)]
      simp [Ne.symm last]

/-- A step that adds an answer discloses this answer alone. -/
theorem filterMap_answer?_of_added (shaped : box.Shaped) (storable : box.Storable)
    (sound : stage.Sound box) (soundNext : next.Sound box)
    (shown : stage.Shown box transition.before) (shownNext : next.Shown box transition.after)
    {answer : Answer} (present : answer.party < box.partyCount)
    (fresh : answerOf? stage.answers answer.party = none)
    (added : next.answers = stage.answers ++ [answer]) :
    (List.range box.partyCount).filterMap (answer? box transition) = [answer] := by
  have found (other : Nat) : answerOf? next.answers other
      = if other = answer.party then some answer else answerOf? stage.answers other := by
    rw [added]
    exact answerOf?_append fresh other
  have disclosed : ∀ party ∈ List.range box.partyCount, answer? box transition party
      = if party = answer.party then some answer else none := by
    intro party member
    rw [answer?_eq shaped storable sound soundNext shown shownNext (List.mem_range.mp member)]
    by_cases same : party = answer.party
    · have asked := soundNext.seen?_of_answerOf? ((found party).trans (if_pos same))
      rw [if_pos same, asked]
      simp [told?, found, same, fresh]
    · rw [if_neg same]
      simp only [told?, found, if_neg same]
      cases answerOf? stage.answers party with
      | none => simp
      | some earlier => rfl
  rw [List.filterMap_congr disclosed, filterMap_range_eq_singleton present]

end

section

variable {box : Box Rat} {stage : Stage} {trace : List (Transition Rat)} {input : List Nat}
  {answers : List Answer}

/-- A trace records the answers of the stage that it leads to. -/
theorem Follows.recorded_eq (shaped : box.Shaped) (storable : box.Storable)
    (follows : Follows box trace stage) : recorded box trace = stage.answers := by
  induction follows with
  | start => rfl
  | @step trace transition stage next earlier shown moves shownNext inductionHypothesis =>
    have sound := earlier.sound
    have soundNext := moves.sound sound
    have oneMore : recorded box (trace ++ [transition]) = recorded box trace
        ++ (List.range box.partyCount).filterMap (answer? box transition) := by
      simp [recorded]
    rw [oneMore, inductionHypothesis]
    rcases moves.answers_cases with ⟨-, kept⟩ | ⟨question, output, _, awaited, -, -, added⟩
    · rw [filterMap_answer?_of_kept shaped storable sound soundNext shown shownNext kept, kept,
        List.append_nil]
    · obtain ⟨present, -, fresh⟩ := sound.awaiting question awaited
      rw [filterMap_answer?_of_added shaped storable sound soundNext shown shownNext present fresh
        added, added]

/-- The first output is disclosed by a command of the first family, the others by the
other one. -/
theorem Follows.families_eq (follows : Follows box trace stage) :
    (disclosures trace).map (·.command.key.family) = disclosingFamilies stage.answers.length := by
  induction follows with
  | start => rfl
  | @step trace transition stage next earlier _ moves _ inductionHypothesis =>
    have lastFamilies : (disclosures [transition]).map (·.command.key.family)
        = ((transition.firings.map Firing.record).filter (·.1.discloses)).map Prod.fst := by
      rw [← record_disclosures_singleton, List.map_map]
      rfl
    rw [disclosures_append, List.map_append, inductionHypothesis, lastFamilies]
    rcases moves.answers_cases with ⟨silent, kept⟩ | ⟨_, _, _, -, -, disclosed, added⟩
    · rw [silent, kept, List.map_nil, List.append_nil]
    · rw [disclosed, added, List.length_append, List.length_singleton, disclosingFamilies_succ]
      rfl

/-- Answers that can be given one after another have a positive marginal. -/
theorem Foreseen.mass_pos (exact : box.Exact) (foreseen : Foreseen box answers)
    (fits : Tuple.Fits box.inputRange box.partyCount input) (asks : Asks input answers) :
    0 < mass box input answers := by
  induction foreseen with
  | start =>
    rw [mass_nil exact fits]
    exact one_pos
  | @next answers question output weight earlier present inside fresh discloses
      inductionHypothesis =>
    obtain ⟨earlierAsks, asked⟩ := (asks_append _ _ _).mp asks
    exact ((discloses_iff exact (earlier.sound.asking present inside fresh) rfl fits earlierAsks
      asked (inductionHypothesis earlierAsks) output weight).mp discloses).2.1

/-- Answers with a positive marginal can be given one after another, in any order. -/
theorem foreseen_of_mass_pos (exact : box.Exact) (distinct : (answers.map Answer.party).Nodup)
    (fits : Tuple.Fits box.inputRange box.partyCount input) (asks : Asks input answers)
    (positive : 0 < mass box input answers) : Foreseen box answers := by
  induction answers using List.reverseRecOn with
  | nil => exact .start
  | append_singleton answers answer inductionHypothesis =>
    obtain ⟨earlierAsks, asked⟩ := (asks_append _ _ _).mp asks
    obtain ⟨present, inside⟩ := fits.lt_of_getElem? asked
    have earlierPositive := positive.trans_le (mass_append_le exact input answers answer)
    rw [List.map_append, List.nodup_append] at distinct
    obtain ⟨earlierDistinct, -, apart⟩ := distinct
    have fresh : answerOf? answers answer.party = none := by
      rw [answerOf?_eq_none]
      intro other member
      exact apart other.party (List.mem_map_of_mem member) answer.party (by simp)
    have foreseen := inductionHypothesis earlierDistinct earlierAsks earlierPositive
    obtain ⟨tuple, tupleFits, tells⟩ := exists_tells_of_mass_pos positive
    have candidate := (tupleFits.lt_of_getElem? ((tells_append _ _ _).mp tells).2).2
    have asking : Stage.Sound box
        ⟨fun _ => none, answers, some ⟨answer.party, answer.input⟩⟩ :=
      foreseen.sound.asking present inside fresh
    have discloses := (discloses_iff exact asking rfl fits earlierAsks asked earlierPositive
      answer.output _).mpr ⟨candidate, positive, rfl⟩
    have oneMore : Foreseen box
        (answers ++ [Question.answer ⟨answer.party, answer.input⟩ answer.output]) :=
      .next foreseen present inside fresh discloses
    exact oneMore

/-- The weights along a trace multiply up to the marginal of its answers. -/
theorem Follows.pathProbability_eq (exact : box.Exact) (follows : Follows box trace stage)
    (fits : Tuple.Fits box.inputRange box.partyCount input) (asks : Asks input stage.answers) :
    pathProbability trace = mass box input stage.answers := by
  induction follows with
  | start => exact (mass_nil exact fits).symm
  | @step trace transition stage next earlier _ moves _ inductionHypothesis =>
    rw [pathProbability_append]
    rcases moves.answers_cases with
      ⟨silent, kept⟩ | ⟨question, output, weight, awaited, discloses, disclosed, added⟩
    · rw [kept] at asks ⊢
      rw [silent, inductionHypothesis asks, List.map_nil, List.prod_nil, mul_one]
    · rw [added] at asks ⊢
      obtain ⟨earlierAsks, asked⟩ := (asks_append _ _ _).mp asks
      have positive := earlier.foreseen.mass_pos exact fits earlierAsks
      obtain ⟨-, -, rfl⟩ := (discloses_iff exact earlier.sound awaited fits earlierAsks asked
        positive output weight).mp discloses
      rw [disclosed, inductionHypothesis earlierAsks, List.map_singleton, List.prod_singleton,
        Weight.value, mul_div_cancel₀ _ positive.ne']

end

/-- In the model of a box that is valid at tolerance 0, answers are disclosed with their
marginal probability, whatever the order in which the parties are asked.

The first disclosure is by a reduced command and the later ones by normalised commands,
their weights multiply up to the marginal given any input tuple that extends the inputs
asked, and a run discloses the answers exactly if that marginal is positive. Once all
parties have answered it is the probability of their outputs. -/
theorem disclosures_distributed_as_box {box : Box Rat} {model : Model Rat}
    (storable : box.Storable) (valid : Validity.validate box 0 = .ok ())
    (generated : Disclosure.model box = .ok model) {input : List Nat}
    (fits : Tuple.Fits box.inputRange box.partyCount input) {answers : List Answer}
    (distinct : (answers.map Answer.party).Nodup) (asks : Asks input answers) :
    ∃ probability, box.marginal input answers = .ok probability
      ∧ (answers.length = box.partyCount → ∀ output,
          Tuple.Fits box.outputRange box.partyCount output → Tells output answers →
          box.prob input output = .ok probability)
      ∧ ∀ order : List Answer, order.Perm answers →
          ((∃ trace state, model.Run trace state ∧ recorded box trace = order)
            ↔ 0 < probability)
          ∧ ∀ trace state, model.Run trace state → recorded box trace = order →
              (disclosures trace).map (·.command.key.family) = disclosingFamilies answers.length
                ∧ pathProbability trace = probability := by
  obtain ⟨output, reduced, normalised, setting⟩ :=
    exists_setting (Box.separated_of_validate valid) storable generated
  have shaped := setting.shaped
  have exact := Validity.exact_of_validate shaped valid
  refine ⟨mass box input answers, marginal_eq shaped fits answers, ?_, ?_⟩
  · intro all output outputFits tells
    rw [shaped.prob_eq fits outputFits, mass_of_all outputFits tells distinct all]
  · intro order reorder
    have orderAsks : Asks input order := fun answer member =>
      asks answer (reorder.mem_iff.mp member)
    have orderDistinct := (reorder.map Answer.party).nodup_iff.mpr distinct
    rw [← mass_perm reorder]
    refine ⟨⟨?_, ?_⟩, ?_⟩
    · rintro ⟨trace, state, run, rfl⟩
      obtain ⟨stage, follows, -⟩ := setting.follows_of_run run
      rw [follows.recorded_eq shaped storable] at orderAsks ⊢
      exact follows.foreseen.mass_pos exact fits orderAsks
    · intro positive
      obtain ⟨trace, state, run, follows, -⟩ := setting.run_of_foreseen
        (foreseen_of_mass_pos exact orderDistinct fits orderAsks positive)
      exact ⟨trace, state, run, follows.recorded_eq shaped storable⟩
    · rintro trace state run rfl
      obtain ⟨stage, follows, -⟩ := setting.follows_of_run run
      rw [← reorder.length_eq]
      rw [follows.recorded_eq shaped storable] at orderAsks ⊢
      exact ⟨follows.families_eq, follows.pathProbability_eq exact fits orderAsks⟩

/-- If both parties of the correlated box are asked with 1, outputs that differ are
disclosed with probability 1/2, whichever party is asked first. -/
theorem correlated_disclosures_distributed :
    ∃ model, Disclosure.model (Box.correlated 0 (1 / 2) : Box Rat) = .ok model
      ∧ ∀ order : List Answer, order.Perm [⟨0, 1, 0⟩, ⟨1, 1, 1⟩] →
          (∃ trace state, model.Run trace state
            ∧ recorded (Box.correlated 0 (1 / 2) : Box Rat) trace = order)
          ∧ ∀ trace state, model.Run trace state →
              recorded (Box.correlated 0 (1 / 2) : Box Rat) trace = order →
              pathProbability trace = 1 / 2 := by
  have valid : Validity.validate (Box.correlated 0 (1 / 2) : Box Rat) 0 = .ok () :=
    Attempt.eq_ok_of_toOption (by decide +kernel)
  obtain ⟨model, generated⟩ :
      ∃ model, Disclosure.model (Box.correlated 0 (1 / 2) : Box Rat) = .ok model :=
    Attempt.exists_eq_ok (by decide +kernel)
  have half : (Box.correlated 0 (1 / 2) : Box Rat).marginal [1, 1] [⟨0, 1, 0⟩, ⟨1, 1, 1⟩]
      = .ok (1 / 2) := Attempt.eq_ok_of_toOption (by decide +kernel)
  have asks : Asks [1, 1] [⟨0, 1, 0⟩, ⟨1, 1, 1⟩] := by simp [Asks]
  obtain ⟨probability, isMarginal, -, ordered⟩ :=
    disclosures_distributed_as_box (by decide) valid generated ⟨rfl, by decide⟩ (by decide) asks
  obtain rfl := Except.ok.inj (half.symm.trans isMarginal)
  refine ⟨model, generated, ?_⟩
  intro order reorder
  obtain ⟨exists_iff, alongRuns⟩ := ordered order reorder
  exact ⟨exists_iff.mpr (by norm_num), fun trace state run same =>
    (alongRuns trace state run same).2⟩

end Disclosure

end Nonlocal
