import Nonlocal.Proofs.Disclosure.Protocol
import Nonlocal.Proofs.Validity.Passed

/-!
# Only possible outcomes are disclosed

When all outputs are set, the last of them was disclosed by a command whose query
had nothing left to sum over: it looked up a single cell, at the inputs that all
parties have seen and the outputs that all of them have disclosed. The query was
positive, and it was that cell over a divisor. In binary64 numbers a quotient is
positive only if its numerator is not a zero, so the cell is positive, however
roughly the rest of the table agrees with itself.
-/

open Float.Model

namespace Nonlocal

/-- Comparing numbers is comparing what they unpack to. -/
theorem float_lt_iff (p q : Float) :
    p < q ↔ p.toModel.unpack.lt q.toModel.unpack = true := by
  change decide (p.toModel < q.toModel) = true ↔ _
  rw [decide_eq_true_eq]
  rfl

/-- Comparing numbers is comparing what they unpack to. -/
theorem float_le_iff (p q : Float) :
    p ≤ q ↔ p.toModel.unpack.le q.toModel.unpack = true := by
  change decide (p.toModel ≤ q.toModel) = true ↔ _
  rw [decide_eq_true_eq]
  rfl

/-- The number zero unpacks to the positive zero. -/
theorem float_unpack_zero : (0 : Float).toModel.unpack = .zero .positive := rfl

/-- A number that is neither below zero nor above it is one of the two zeros. -/
theorem float_eq_zero_of_not_pos {p : Float} (nonnegative : 0 ≤ p) (notPositive : ¬ 0 < p) :
    ∃ sign, p.toModel.unpack = .zero sign := by
  rw [float_le_iff, float_unpack_zero] at nonnegative
  rw [float_lt_iff, float_unpack_zero] at notPositive
  cases unpacked : p.toModel.unpack with
  | zero sign => exact ⟨sign, rfl⟩
  | notANumber =>
    rw [unpacked] at nonnegative
    exact (Bool.false_ne_true nonnegative).elim
  | infinity sign =>
    rw [unpacked] at nonnegative notPositive
    cases sign with
    | negative => exact (Bool.false_ne_true nonnegative).elim
    | positive => exact (notPositive rfl).elim
  | finite sign mantissa exponent positive =>
    rw [unpacked] at nonnegative notPositive
    cases sign with
    | negative => exact (Bool.false_ne_true nonnegative).elim
    | positive => exact (notPositive rfl).elim

/-- Zero over any divisor is a zero or no number, and in no case positive. -/
theorem float_zero_div_not_pos (d : Float) : ¬ 0 < 0 / d := by
  have quotient : UnpackedFloat.div .binary64 (.zero .positive) d.toModel.unpack = .notANumber
      ∨ ∃ sign, UnpackedFloat.div .binary64 (.zero .positive) d.toModel.unpack
        = .zero sign := by
    cases d.toModel.unpack with
    | notANumber => exact Or.inl rfl
    | zero sign => exact Or.inl rfl
    | infinity sign => exact Or.inr ⟨_, rfl⟩
    | finite sign mantissa exponent positive => exact Or.inr ⟨_, rfl⟩
  rw [float_lt_iff, float_unpack_zero]
  change ¬ UnpackedFloat.lt _
    (pack (UnpackedFloat.div .binary64 (0 : Float).toModel.unpack d.toModel.unpack)).unpack = true
  rw [float_unpack_zero]
  rcases quotient with noNumber | ⟨sign, isZero⟩
  · rw [noNumber]
    decide
  · rw [isZero]
    cases sign <;> decide

/-- A sum that starts at zero and is positive over some divisor has a positive part. -/
theorem float_pos_of_quotient_pos {p d : Float} (nonnegative : 0 ≤ p)
    (positive : 0 < (0 + p) / d) : 0 < p := by
  by_contra notPositive
  obtain ⟨sign, isZero⟩ := float_eq_zero_of_not_pos nonnegative notPositive
  have vanishes : 0 + p = 0 := by
    change Float.ofModel (pack
      (UnpackedFloat.add .binary64 (0 : Float).toModel.unpack p.toModel.unpack)) = 0
    rw [float_unpack_zero, isZero]
    cases sign <;> rfl
  rw [vanishes] at positive
  exact float_zero_div_not_pos d positive

namespace Box

variable {α : Type} {box : Box α}

/-- With one party pending, its query looks up a single cell. -/
theorem normalisedProb_alone [Zero α] [Add α] [Div α] [BEq α] {input output : List Nat}
    {party : Nat} {p : α} (given : box.normalisedProb input output [party] = .ok p) :
    ∃ q d, box.prob input output = .ok q ∧ (p = 0 ∨ p = (0 + q) / d) := by
  obtain ⟨_, -, rest⟩ := (Attempt.bind_eq_ok_iff _ _ _).mp given
  obtain ⟨numerator, summed, rest⟩ := (Attempt.bind_eq_ok_iff _ _ _).mp rest
  obtain ⟨denominator, -, same⟩ := (Attempt.bind_eq_ok_iff _ _ _).mp rest
  rw [summedOut, Tuple.foldTuples_eq_foldlM, List.length_nil, Tuple.walk_zero,
    List.foldlM_cons, Attempt.bind_eq_ok_iff] at summed
  obtain ⟨total, looked, ended⟩ := summed
  obtain rfl := Except.ok.inj ended
  obtain ⟨q, found, added⟩ := (Attempt.bind_eq_ok_iff _ _ _).mp looked
  obtain rfl := Except.ok.inj added
  rw [queryProb, Attempt.mapRefusal_eq_ok_iff, Attempt.ofExcept_eq_ok_iff] at found
  refine ⟨q, denominator, found, ?_⟩
  obtain rfl := Except.ok.inj same
  by_cases vanishes : denominator == 0 <;> simp [vanishes]

/-- In a box with one party, the joint sum is a single cell. -/
theorem jointSum_alone [Zero α] [Add α] {input output assignments : Nat} {total : α}
    (alone : box.partyCount = 1)
    (summed : box.jointSum 0 input output = .ok (total, assignments)) :
    ∃ q, box.prob [input] [output] = .ok q ∧ total = 0 + q := by
  have nobody : (Word.sub box.partyCount 1 : Attempt QueryError Nat) = .ok 0 := by
    rw [alone]
    rfl
  rw [jointSum, nobody] at summed
  obtain ⟨others, isNobody, outerFold⟩ := (Attempt.bind_eq_ok_iff _ _ _).mp summed
  obtain rfl := Except.ok.inj isNobody
  rw [Tuple.foldTuples_eq_foldlM, Tuple.walk_zero, List.foldlM_cons,
    Attempt.bind_eq_ok_iff] at outerFold
  obtain ⟨outer, outerStep, outerEnd⟩ := outerFold
  obtain rfl := Except.ok.inj outerEnd
  obtain ⟨_, -, afterCount⟩ := (Attempt.bind_eq_ok_iff _ _ _).mp outerStep
  obtain ⟨fullInput, inputMade, afterInput⟩ := (Attempt.bind_eq_ok_iff _ _ _).mp afterCount
  obtain rfl := Except.ok.inj inputMade
  obtain ⟨inner, innerFold, innerEnd⟩ := (Attempt.bind_eq_ok_iff _ _ _).mp afterInput
  rw [Tuple.foldTuples_eq_foldlM, Tuple.walk_zero, List.foldlM_cons,
    Attempt.bind_eq_ok_iff] at innerFold
  obtain ⟨sum, innerStep, same⟩ := innerFold
  obtain ⟨fullOutput, outputMade, afterOutput⟩ := (Attempt.bind_eq_ok_iff _ _ _).mp innerStep
  obtain rfl := Except.ok.inj outputMade
  obtain ⟨q, found, added⟩ := (Attempt.bind_eq_ok_iff _ _ _).mp afterOutput
  rw [queryProb, Attempt.mapRefusal_eq_ok_iff, Attempt.ofExcept_eq_ok_iff] at found
  refine ⟨q, found, ?_⟩
  rw [← (Prod.mk.inj (Except.ok.inj innerEnd)).1, ← Except.ok.inj same, ← Except.ok.inj added]

/-- In a box with one party, the marginal is a single cell over a divisor. -/
theorem reducedProb_alone [Zero α] [Add α] [Div α] [Scalar α] {party input output : Nat} {p : α}
    (alone : box.partyCount = 1) (given : box.reducedProb party input output = .ok p) :
    ∃ q d, box.prob [input] [output] = .ok q ∧ p = (0 + q) / d := by
  rw [reducedProb] at given
  split at given
  · next present =>
    obtain rfl : party = 0 := by omega
    obtain ⟨_, -, afterInput⟩ := (Attempt.bind_eq_ok_iff _ _ _).mp given
    obtain ⟨_, -, afterOutput⟩ := (Attempt.bind_eq_ok_iff _ _ _).mp afterInput
    obtain ⟨⟨total, assignments⟩, summed, same⟩ := (Attempt.bind_eq_ok_iff _ _ _).mp afterOutput
    obtain ⟨q, found, rfl⟩ := jointSum_alone alone summed
    exact ⟨q, _, found, (Except.ok.inj same).symm⟩
  · cases given

end Box

namespace Disclosure

variable {α : Type}

section

variable {box : Box α} {answers : List Answer} {question : Question}

/-- If nobody has answered and the question is the last one, there is one party. -/
theorem alone_of_last (shaped : box.Shaped)
    (others : ∀ party < box.partyCount, party ≠ question.party →
      (answerOf? ([] : List Answer) party).isSome) :
    box.partyCount = 1 ∧ question.party = 0 := by
  have nobodyElse (party : Nat) (here : party < box.partyCount) : party = question.party := by
    by_contra different
    simpa [answerOf?] using others party here different
  have first := nobodyElse 0 shaped.inhabited
  constructor
  · by_contra several
    have inhabited := shaped.inhabited
    have second := nobodyElse 1 (by omega)
    omega
  · exact first.symm

/-- If all others have answered, only the asked party is pending. -/
theorem queryPending_of_last {parties : Nat}
    (others : ∀ party < parties, party ≠ question.party → (answerOf? answers party).isSome) :
    queryPending parties answers question = [question.party] := by
  rw [queryPending, List.filter_eq_nil_iff.mpr]
  intro party member
  by_cases same : party = question.party
  · simp [same]
  · have answered := others party (List.mem_range.mp member) same
    simp [Option.isNone_eq_false_iff.mpr answered]

/-- The query of the last question looks up the single cell at all inputs and outputs. -/
theorem exists_cell_of_last_chance [Zero α] [Add α] [Div α] [BEq α] [Scalar α] {output : Nat}
    {p : α} (shaped : box.Shaped)
    (others : ∀ party < box.partyCount, party ≠ question.party →
      (answerOf? answers party).isSome)
    (given : chance box answers question output = .ok p) :
    ∃ q d, box.prob (queryInput box.partyCount answers question)
        (queryOutput box.partyCount answers question output) = .ok q
      ∧ (p = 0 ∨ p = (0 + q) / d) := by
  unfold chance at given
  split at given
  · next nobody =>
    obtain rfl : answers = [] := by simpa using nobody
    obtain ⟨alone, partyZero⟩ := alone_of_last shaped others
    obtain ⟨q, d, looked, isQuotient⟩ := Box.reducedProb_alone alone given
    have inputTuple : queryInput box.partyCount [] question = [question.input] := by
      simp [queryInput, alone, partyZero]
    have outputTuple : queryOutput box.partyCount [] question output = [output] := by
      simp [queryOutput, alone, partyZero]
    rw [inputTuple, outputTuple]
    exact ⟨q, d, looked, Or.inr isQuotient⟩
  · rw [queryPending_of_last others] at given
    exact Box.normalisedProb_alone given

end

/-- The query of the last question is positive only if the cell at all inputs and
outputs is. -/
theorem prob_pos_of_last_chance {box : Box Float} (shaped : box.Shaped)
    (nonnegative : ∀ row ∈ box.matrix, ∀ cell ∈ row, 0 ≤ cell) {answers : List Answer}
    {question : Question} {output : Nat} {p : Float}
    (others : ∀ party < box.partyCount, party ≠ question.party →
      (answerOf? answers party).isSome)
    (given : chance box answers question output = .ok p) (positive : 0 < p) :
    ∃ q, box.prob (queryInput box.partyCount answers question)
        (queryOutput box.partyCount answers question output) = .ok q ∧ 0 < q := by
  obtain ⟨q, d, looked, value⟩ := exists_cell_of_last_chance shaped others given
  obtain ⟨row, rowMember, member⟩ := Box.exists_cell_of_prob looked
  refine ⟨q, looked, ?_⟩
  rcases value with rfl | rfl
  · exact absurd positive (by decide)
  · exact float_pos_of_quotient_pos (nonnegative row rowMember q member) positive

/-- Values that are read off party by party are a tuple of the variables. -/
theorem map_range_eq_map {names : List String} {parties : Nat} (counted : names.length = parties)
    (tuple : Nat → Nat) (read : String → Option Nat)
    (agree : ∀ party name, names[party]? = some name → read name = some (tuple party)) :
    ((List.range parties).map tuple).map some = names.map read := by
  apply List.ext_getElem
  · simp [counted]
  · intro party inRange inNames
    have here : party < names.length := by simpa using inNames
    simpa using (agree party _ (List.getElem?_eq_getElem here)).symm

section

variable {box : Box α} {stage : Stage} {state : Valuation}

/-- The inputs that all parties have seen can be read off a state. -/
theorem Stage.Shown.map_seen (shown : stage.Shown box state) (sound : stage.Sound box)
    (shaped : box.Shaped) (storable : box.Storable) (tuple : Nat → Nat)
    (seen : ∀ party < box.partyCount, stage.seen? party = some (tuple party)) :
    ((List.range box.partyCount).map tuple).map some
      = box.inputs.map fun name => state.count? (Identifier.seenVariable name) := by
  apply map_range_eq_map rfl
  intro party name named
  have here : party < box.partyCount := (List.getElem?_eq_some_iff.mp named).1
  rw [shown.count?_seen sound shaped storable named, seen party here]

/-- The outputs that all parties have disclosed can be read off a state. -/
theorem Stage.Shown.map_told (shown : stage.Shown box state) (sound : stage.Sound box)
    (shaped : box.Shaped) (storable : box.Storable) (tuple : Nat → Nat)
    (told : ∀ party < box.partyCount, told? stage.answers party = some (tuple party)) :
    ((List.range box.partyCount).map tuple).map some = box.outputs.map state.count? := by
  apply map_range_eq_map shaped.balanced
  intro party name named
  have here : party < box.partyCount := by
    rw [← shaped.balanced]
    exact (List.getElem?_eq_some_iff.mp named).1
  rw [shown.count?_output sound shaped storable named, told party here]

/-- What a party was asked and has told after a last answer, if it has answered: the last
question and its output, or what the answers before say. -/
theorem Stage.Sound.seen_told_of_last (sound : stage.Sound box) {front : List Answer}
    {question : Question} {output party : Nat}
    (isWhole : stage.answers = front ++ [question.answer output])
    (fresh : answerOf? front question.party = none)
    (answered : (answerOf? stage.answers party).isSome) :
    stage.seen? party
        = some (if party = question.party then question.input else (asked? front party).getD 0)
      ∧ told? stage.answers party
        = some (if party = question.party then output else (told? front party).getD 0) := by
  obtain ⟨answer, isAnswer⟩ := Option.isSome_iff_exists.mp answered
  have found : answerOf? stage.answers party
      = if party = question.party then some (question.answer output)
        else answerOf? front party := by
    rw [isWhole]
    exact answerOf?_append fresh party
  rw [sound.seen?_of_answerOf? isAnswer, told?, isAnswer]
  rw [isAnswer] at found
  by_cases same : party = question.party
  · obtain rfl : answer = question.answer output := by simpa [same] using found
    simp [same]
  · have inFront : answerOf? front party = some answer := by simpa [same] using found.symm
    simp [same, asked?, told?, inFront]

end

/-- Where a run of the model of a valid box ends with all outputs set, the inputs that
were seen and the outputs that were disclosed have positive probability together. -/
theorem outcome_possible {box : Box Float} {tolerance : Float} {model : Model Float}
    (storable : box.Storable) (valid : Validity.validate box tolerance = .ok ())
    (generated : Disclosure.model box = .ok model) {state : Valuation}
    (reachable : model.Reachable state)
    (finished : ∀ output ∈ box.outputs, state output ≠ some unset) :
    ∃ inputs outputs p,
      inputs.map some = box.inputs.map (fun name => state.count? (Identifier.seenVariable name))
        ∧ outputs.map some = box.outputs.map state.count?
        ∧ box.prob inputs outputs = .ok p ∧ 0 < p := by
  obtain ⟨output, reduced, normalised, setting⟩ :=
    exists_setting (Box.separated_of_validate valid) storable generated
  obtain ⟨trace, run⟩ := reachable
  obtain ⟨stage, follows, shown⟩ := setting.follows_of_run run
  have shaped := setting.shaped
  have sound := follows.sound
  have answered (party : Nat) (here : party < box.partyCount) :
      (answerOf? stage.answers party).isSome := by
    obtain ⟨name, named⟩ := shaped.exists_output here
    have isSet := finished name (List.mem_of_getElem? named)
    exact ((disclosed_iff shaped shown party).mp ⟨name, named, isSet⟩).2
  -- The answers end with the one that was disclosed last.
  generalize isWhole : stage.answers = answers at answered
  have foreseen := isWhole ▸ follows.foreseen
  cases foreseen with
  | start => simpa [answerOf?] using answered 0 shaped.inhabited
  | @next front question value weight earlier present inside fresh discloses =>
    have others (party : Nat) (here : party < box.partyCount) (different : party ≠ question.party) :
        (answerOf? front party).isSome := by
      have isAnswered := answered party here
      rw [answerOf?_append (show answerOf? front (question.answer value).party = none from fresh),
        Question.answer_party, if_neg different] at isAnswered
      exact isAnswered
    obtain ⟨values, weighted, listed⟩ := discloses
    obtain ⟨-, p, given, positive⟩ :=
      (exists_discloses_iff weighted value).mp ⟨weight, listed⟩
    obtain ⟨q, looked, cellPositive⟩ := prob_pos_of_last_chance shaped
      (fun row member cell inRow => (Validity.cell_of_validate valid row member cell inRow).1)
      others given positive
    have read (party : Nat) (here : party < box.partyCount) :=
      sound.seen_told_of_last isWhole fresh (isWhole ▸ answered party here)
    exact ⟨_, _, q, shown.map_seen sound shaped storable _ fun party here => (read party here).1,
      shown.map_told sound shaped storable _ fun party here => (read party here).2,
      looked, cellPositive⟩

/-- In the model of the correlated box both parties may be asked with 1 and disclose
different outputs, and that outcome is possible. -/
theorem correlated_outcome_possible :
    ∃ (model : Model Float) (state : Valuation),
      Disclosure.model (Box.correlated 0 0.5) = .ok model ∧ model.Reachable state
        ∧ (∀ output ∈ (Box.correlated 0 0.5 : Box Float).outputs, state output ≠ some unset)
        ∧ ∃ inputs outputs p,
          inputs.map some = ["x", "y"].map
              (fun name => state.count? (Identifier.seenVariable name))
            ∧ outputs.map some = ["a", "b"].map state.count?
            ∧ (Box.correlated 0 0.5 : Box Float).prob inputs outputs = .ok p ∧ 0 < p := by
  let box : Box Float := Box.correlated 0 0.5
  have storable : box.Storable := by decide
  have valid : Validity.validate box Validity.defaultTolerance = .ok () :=
    Attempt.eq_ok_of_toOption (by decide +kernel)
  obtain ⟨model, generated⟩ : ∃ model, Disclosure.model box = .ok model :=
    Attempt.exists_eq_ok (by decide +kernel)
  obtain ⟨output, reduced, normalised, setting⟩ :=
    exists_setting (Box.separated_of_validate valid) storable generated
  have first : Discloses box [] ⟨0, 1⟩ 0 0.5 :=
    ⟨[(0, 0.5), (1, 0.5)], Attempt.eq_ok_of_toOption (by decide +kernel), by simp⟩
  have second : Discloses box [⟨0, 1, 0⟩] ⟨1, 1⟩ 1 1 :=
    ⟨[(1, 1)], Attempt.eq_ok_of_toOption (by decide +kernel), by simp⟩
  have foreseen : Foreseen box [⟨0, 1, 0⟩, ⟨1, 1, 1⟩] :=
    .next (.next .start (by decide) (by decide) rfl first) (by decide) (by decide) rfl second
  obtain ⟨trace, state, run, -, shown⟩ := setting.run_of_foreseen foreseen
  have finished : ∀ output ∈ box.outputs, state output ≠ some unset := by
    intro output member
    obtain ⟨party, named⟩ := List.mem_iff_getElem?.mp member
    have here : party < 2 := (List.getElem?_eq_some_iff.mp named).1
    rw [shown.output named, Ne, Option.some.injEq, holding_eq_unset]
    obtain rfl | rfl : party = 0 ∨ party = 1 := by omega
    · decide
    · decide
  exact ⟨model, state, generated, ⟨trace, run⟩, finished,
    outcome_possible storable valid generated ⟨trace, run⟩ finished⟩

end Disclosure

end Nonlocal
