import Nonlocal.Proofs.Box.Answers
import Nonlocal.Proofs.Disclosure.Existence

/-!
# No request to a box faults

A box may have any shape: rows of different lengths, too many or too few of them, lists
of names that do not pair up, empty ranges and numbers that are none. Whatever is asked
of it, a lookup, a query, a check out of its turn, all checks, or its model, the answer is
a value or a refusal. The only thing that a box is held to is what the machine can hold:
its lists have no more elements than signed words can count, and its ranges are words.
-/

namespace Nonlocal

namespace Tuple

/-- The index of a tuple is a word. -/
theorem lt_limit_of_encodeFrom {radix length position index result : Nat} {digits : List Nat}
    (word : index < Word.limit)
    (encoded : encodeFrom radix length position index digits = .ok result) :
    result < Word.limit := by
  induction digits generalizing position index with
  | nil => exact Except.ok.inj encoded ▸ word
  | cons digit rest inductionHypothesis =>
    simp only [encodeFrom] at encoded
    split at encoded
    · split at encoded
      · next added =>
        obtain ⟨product, -, summed⟩ := Option.bind_eq_some_iff.mp added
        simp only [Word.add?, Word.check?, Option.ite_none_right_eq_some, Option.some.injEq]
          at summed
        exact inductionHypothesis (summed.2 ▸ summed.1) encoded
      · cases encoded
    · cases encoded

end Tuple

namespace Validity

variable {α : Type}

/-- The marginal of the others' outputs is formed or a lookup is refused. -/
theorem othersMarginal_answers [Zero α] [Add α] {box : Box α} {party : Nat}
    {otherInputs otherOutputs : List Nat} (present : party < box.partyCount)
    (inputsFit : Tuple.Fits box.inputRange (box.partyCount - 1) otherInputs)
    (outputsFit : Tuple.Fits box.outputRange (box.partyCount - 1) otherOutputs) (input : Nat) :
    (othersMarginal box party otherInputs otherOutputs input).Answers := by
  rw [othersMarginal, Box.insertAt_of_fits inputsFit present]
  refine .bind (.ok _) fun fullInput _ => .foldValues (fun output _ _ total => ?_) 0
  rw [Box.insertAt_of_fits outputsFit present]
  refine .bind (.ok _) fun fullOutput _ => ?_
  exact ((Attempt.Answers.ofExcept _).mapRefusal _).bind fun _ _ => .ok _

variable [Zero α] [Add α] [Sub α] [LT α] [DecidableLT α] [Scalar α]

/-- Comparing the marginals of one assignment answers. -/
theorem checkAssignment_answers {box : Box α} (tolerance : α) {party : Nat}
    {otherInputs otherOutputs : List Nat} (present : party < box.partyCount)
    (inputsFit : Tuple.Fits box.inputRange (box.partyCount - 1) otherInputs)
    (outputsFit : Tuple.Fits box.outputRange (box.partyCount - 1) otherOutputs) :
    (checkAssignment box tolerance party otherInputs otherOutputs).Answers := by
  refine (othersMarginal_answers present inputsFit outputsFit 0).bind fun baseline _ => ?_
  refine .foldValues (fun input _ _ _ => ?_) ()
  refine (othersMarginal_answers present inputsFit outputsFit input).bind fun marginal _ => ?_
  split
  · exact .refuse _
  · exact .ok ()

/-- The check of all parties answers. Without parties nobody is counted among the others. -/
theorem checkNonSignalling_answers (box : Box α) (tolerance : α) :
    (checkNonSignalling box tolerance).Answers := by
  refine .foldValues (fun party _ below _ => ?_) ()
  have present : party < box.partyCount := by omega
  rw [Box.sub_partyCount_of_lt present]
  refine .bind (.ok _) fun others same => ?_
  obtain rfl := Except.ok.inj same
  refine .foldTuples (fun otherInputs inputsFit _ => ?_) ()
  refine .foldTuples (fun otherOutputs outputsFit _ => ?_) ()
  exact checkAssignment_answers tolerance present inputsFit outputsFit

variable [One α] [LE α] [DecidableLE α]

/-- Each check answers on its own, also where no earlier check has passed. -/
theorem runCheck_answers (check : Check) (box : Box α) (tolerance : α) :
    (runCheck check box tolerance).Answers := by
  refine (Attempt.Answers.ofExcept _).bind fun _ _ => ?_
  cases check with
  | nonSignalling => exact checkNonSignalling_answers box tolerance
  | valueRange => exact .ofExcept _
  | rowCount => exact .ofExcept _
  | rowLength => exact .ofExcept _
  | rowSum => exact .ofExcept _
  | partyBalance => exact .ofExcept _
  | variableNaming => exact .ofExcept _

/-- All checks in their order answer. -/
theorem validate_answers (box : Box α) (tolerance : α) : (validate box tolerance).Answers :=
  .forM fun check _ => runCheck_answers check box tolerance

end Validity

/-- Making a model answers: where no precondition lacks, there is a model. -/
theorem Disclosure.model_answers {α : Type} [Zero α] [Add α] [Div α] [BEq α] [Scalar α] [LT α]
    [DecidableLT α] (box : Box α) : (Disclosure.model box).Answers := by
  cases complete : Disclosure.lacking? box with
  | some lacking =>
    rw [Disclosure.model, complete]
    exact .refuse _
  | none =>
    exact .of_exists (exists_model (Box.shaped_of_lacking? complete)
      (Box.few_of_lacking? complete))

namespace Box

variable {α : Type}

/-- A box that the machine can hold, whatever its shape. -/
structure Representable (box : Box α) : Prop extends Storable box where
  inputWords : box.inputRange < Word.limit
  outputWords : box.outputRange < Word.limit

/-- Whatever is asked of the box is answered by a value or by a refusal, and what is
computed on the way to it stays inside its word. -/
structure Answering [Zero α] [One α] [Add α] [Sub α] [Div α] [BEq α] [LT α] [DecidableLT α]
    [LE α] [DecidableLE α] [Scalar α] (box : Box α) : Prop where
  /-- Looking up a cell. -/
  prob : ∀ input output, (Attempt.ofExcept (box.prob input output)).Answers
  /-- The indices that lookups are made with. -/
  index : ∀ side digits row, box.index side digits = .ok row → row < Word.limit
  /-- The query on one party. -/
  reducedProb : ∀ party input output, (box.reducedProb party input output).Answers
  /-- The query on known outputs. -/
  normalisedProb : ∀ input output pending, (box.normalisedProb input output pending).Answers
  /-- Each check on its own. -/
  runCheck : ∀ check tolerance, (Validity.runCheck check box tolerance).Answers
  /-- All checks in their order. -/
  validate : ∀ tolerance, (Validity.validate box tolerance).Answers
  /-- The model. -/
  model : (Disclosure.model box).Answers
  /-- Raising a digit of a tuple that a walk of either side comes to. -/
  digit : ∀ side length, ∀ digits ∈ Tuple.walk (box.range side) length, ∀ digit ∈ digits,
    digit + 1 < Word.limit

/-- An index of either side is a word. -/
theorem lt_limit_of_index {box : Box α} {side : Side} {digits : List Nat} {row : Nat}
    (indexed : box.index side digits = .ok row) : row < Word.limit := by
  unfold index at indexed
  split at indexed
  · cases indexed
  split at indexed
  · next encoded =>
    obtain rfl := Except.ok.inj indexed
    exact Tuple.lt_limit_of_encodeFrom (by decide) encoded
  · cases indexed
  · cases indexed

/-- The ranges of a representable box are words. -/
theorem Representable.range_lt {box : Box α} (representable : box.Representable) (side : Side) :
    box.range side < Word.limit := by
  cases side with
  | input => exact representable.inputWords
  | output => exact representable.outputWords

variable [Zero α] [One α] [Add α] [Sub α] [Div α] [BEq α] [LT α] [DecidableLT α] [LE α]
  [DecidableLE α] [Scalar α]

/-- No request to a box that the machine can hold faults. -/
theorem answering {box : Box α} (representable : box.Representable) : box.Answering where
  prob _ _ := .ofExcept _
  index _ _ _ indexed := lt_limit_of_index indexed
  reducedProb := reducedProb_answers representable.rows
  normalisedProb := box.normalisedProb_answers
  runCheck check := Validity.runCheck_answers check box
  validate := Validity.validate_answers box
  model := Disclosure.model_answers box
  digit side length digits member digit own := by
    have inside := (Tuple.mem_walk.mp member).2 digit own
    have word := representable.range_lt side
    omega

end Box

/-- A box of two inputs and one output with ranges at both ends of a word, one empty row
and one of numbers that are none. -/
def raggedBox : Box Float where
  inputs := ["x", ""]
  outputs := ["x"]
  inputRange := Word.greatest
  outputRange := 0
  matrix := [[], [0 / 0, 1 / 0, -1]]

/-- The ragged box can be held, and no request to it faults. -/
theorem raggedBox_answering : raggedBox.Representable ∧ raggedBox.Answering := by
  have representable : raggedBox.Representable :=
    { rows := by decide, columns := by decide, inputWords := by decide, outputWords := by decide }
  exact ⟨representable, Box.answering representable⟩

end Nonlocal
