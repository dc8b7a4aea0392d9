import Mathlib.Algebra.BigOperators.Group.Finset.Piecewise
import Mathlib.Algebra.Order.BigOperators.Group.Finset
import Nonlocal.Proofs.Disclosure.Simulation

/-!
# What is seen of a run

A run is observed through its states and through the families of the commands that
move. A party has seen its input when the copy of the input is set, and has
disclosed when its output is set. Along the stages that a run follows, the
disclosures are counted by the answers, the consumptions by the questions, and the
steps by what every party has spent: one step to draw a value, one to hand it over
and one to disclose, after which one more value may be drawn.
-/

namespace Nonlocal

variable {α : Type}

/-- The families whose commands disclose an output. -/
def Family.discloses : Family → Bool
  | .reduced | .normalised => true
  | .coinToss | .consume | .inputSync => false

/-- Whether a step hands an input value to the output module. -/
def Transition.consumes (transition : Transition α) : Bool :=
  transition.firings.any fun firing => firing.command.key.family == .inputSync

/-- The firings of a trace that disclose an output, in the order of the trace. -/
def disclosures (trace : List (Transition α)) : List (Firing α) :=
  (trace.flatMap Transition.firings).filter fun firing => firing.command.key.family.discloses

/-- The disclosures of a part of a trace are followed by those of the rest. -/
theorem disclosures_append (early late : List (Transition α)) :
    disclosures (early ++ late) = disclosures early ++ disclosures late := by
  simp [disclosures]

/-- Whether a step consumes an input is recorded. -/
theorem consumes_eq (transition : Transition α) :
    transition.consumes = (transition.firings.map Firing.record).any (·.1 == .inputSync) := by
  simp [Transition.consumes, Firing.record, Function.comp_def]

/-- How many outputs a step discloses is recorded. -/
theorem length_disclosures_singleton (transition : Transition α) :
    (disclosures [transition]).length
      = ((transition.firings.map Firing.record).filter (·.1.discloses)).length := by
  simp [disclosures, Firing.record, List.filter_map, Function.comp_def]

namespace Disclosure

/-- The next answer comes from a disclosing family. -/
theorem familyAfter_discloses (answers : List Answer) :
    (familyAfter answers).discloses = true := by
  unfold familyAfter
  split <;> rfl

/-- The next answer consumes no input. -/
theorem familyAfter_ne_inputSync (answers : List Answer) :
    familyAfter answers ≠ .inputSync := by
  unfold familyAfter
  split <;> simp

variable {box : Box α} {stage next : Stage} {state : Valuation}

/-- The copy of a party's input is set. -/
def Seen (box : Box α) (state : Valuation) (party : Nat) : Prop :=
  ∃ input, box.inputs[party]? = some input
    ∧ state (Identifier.seenVariable input) ≠ some unset

/-- A party's output is set. -/
def Disclosed (box : Box α) (state : Valuation) (party : Nat) : Prop :=
  ∃ output, box.outputs[party]? = some output ∧ state output ≠ some unset

/-- A party has seen its input and not disclosed its output. -/
def Awaited (box : Box α) (state : Valuation) (party : Nat) : Prop :=
  Seen box state party ∧ ¬ Disclosed box state party

/-- A party has seen an input in a state exactly if it has in the stage shown. -/
theorem seen_iff (shown : stage.Shown box state) (party : Nat) :
    Seen box state party ↔ party < box.partyCount ∧ (stage.seen? party).isSome := by
  constructor
  · rintro ⟨input, named, isSet⟩
    rw [shown.seen named, Ne, Option.some.injEq, holding_eq_unset] at isSet
    exact ⟨(List.getElem?_eq_some_iff.mp named).1, Option.isSome_iff_ne_none.mpr isSet⟩
  · rintro ⟨present, isSet⟩
    have named : box.inputs[party]? = some box.inputs[party] := List.getElem?_eq_getElem present
    refine ⟨_, named, ?_⟩
    rw [shown.seen named, Ne, Option.some.injEq, holding_eq_unset]
    exact Option.isSome_iff_ne_none.mp isSet

/-- A party has disclosed in a state exactly if it has answered in the stage shown. -/
theorem disclosed_iff (shaped : box.Shaped) (shown : stage.Shown box state) (party : Nat) :
    Disclosed box state party
      ↔ party < box.partyCount ∧ (answerOf? stage.answers party).isSome := by
  have unsetIff : (answerOf? stage.answers party).isSome
      ↔ told? stage.answers party ≠ none := by
    rw [← Option.isSome_iff_ne_none, History.isSome_told?]
  rw [unsetIff]
  constructor
  · rintro ⟨output, named, isSet⟩
    rw [shown.output named, Ne, Option.some.injEq, holding_eq_unset] at isSet
    rw [← shaped.balanced]
    exact ⟨(List.getElem?_eq_some_iff.mp named).1, isSet⟩
  · rintro ⟨present, isSet⟩
    obtain ⟨output, named⟩ := shaped.exists_output present
    refine ⟨output, named, ?_⟩
    rwa [shown.output named, Ne, Option.some.injEq, holding_eq_unset]

/-- A party that has seen its input is the awaited one or has answered. -/
theorem seen?_isSome_iff (sound : stage.Sound box) (party : Nat) :
    (stage.seen? party).isSome
      ↔ (answerOf? stage.answers party).isSome
        ∨ ∃ question, stage.awaiting = some question ∧ question.party = party := by
  constructor
  · intro seen
    obtain ⟨input, seenInput⟩ := Option.isSome_iff_exists.mp seen
    cases found : answerOf? stage.answers party with
    | none => exact Or.inr ⟨_, Stage.awaiting_of_seen? seenInput found, rfl⟩
    | some answer => exact Or.inl rfl
  · rintro (answered | ⟨question, awaited, rfl⟩)
    · obtain ⟨answer, found⟩ := Option.isSome_iff_exists.mp answered
      rw [sound.seen?_of_answerOf? found]
      rfl
    · rw [Stage.seen?_awaiting awaited]
      rfl

/-- The awaited party of a state is the party of the question in the stage shown. -/
theorem awaited_iff (shaped : box.Shaped) (sound : stage.Sound box)
    (shown : stage.Shown box state) (party : Nat) :
    Awaited box state party
      ↔ ∃ question, stage.awaiting = some question ∧ question.party = party := by
  rw [Awaited, seen_iff shown, disclosed_iff shaped shown, seen?_isSome_iff sound]
  constructor
  · rintro ⟨⟨present, answered | awaited⟩, silent⟩
    · exact (silent ⟨present, answered⟩).elim
    · exact awaited
  · rintro ⟨question, awaited, rfl⟩
    obtain ⟨present, -, silent⟩ := sound.awaiting question awaited
    exact ⟨⟨present, Or.inr ⟨question, awaited, rfl⟩⟩, by simp [silent]⟩

/-- While nothing is drawn, a party that has not answered may be awaited. -/
theorem Stage.Sound.asking {answers : List Answer} {question : Question}
    (sound : Stage.Sound box ⟨fun _ => none, answers, none⟩)
    (present : question.party < box.partyCount) (inside : question.input < box.inputRange)
    (fresh : answerOf? answers question.party = none) :
    Stage.Sound box ⟨fun _ => none, answers, some question⟩ where
  drawn := sound.drawn
  answers := sound.answers
  distinct := sound.distinct
  awaiting := by
    rintro _ ⟨⟩
    exact ⟨present, inside, fresh⟩

section

variable [Zero α] [Add α] [Div α] [BEq α] [Scalar α] [LT α] [DecidableLT α]
  {records : List (Family × Weight α)}

/-- An output or a copy of an input that is set is kept by every move. -/
theorem Stage.Moves.keeps (moves : stage.Moves box records next) (sound : stage.Sound box)
    {party : Nat} {slot : Slot} (kept : slot = .output party ∨ slot = .seen party)
    (isSet : stage.value slot ≠ unset) : next.value slot = stage.value slot := by
  cases moves with
  | toss tossed value present idle inside =>
    rw [Stage.value_toss, Function.update_of_ne]
    rcases kept with rfl | rfl <;> simp
  | hand question drawn idle fresh =>
    have different : slot ≠ .seen question.party := by
      rintro rfl
      refine isSet (holding_eq_unset.mpr ?_)
      simp [Stage.seen?, idle, asked?, fresh]
    rw [Stage.value_hand stage question idle, Function.update_of_ne different,
      Function.update_of_ne, Function.update_of_ne]
    all_goals rcases kept with rfl | rfl <;> simp
  | disclose question output weight awaited discloses =>
    have different : slot ≠ .output question.party := by
      rintro rfl
      refine isSet (holding_eq_unset.mpr ?_)
      simp [told?, (sound.awaiting question awaited).2.2]
    rw [sound.value_disclose awaited, Function.update_of_ne, Function.update_of_ne different]
    rcases kept with rfl | rfl <;> simp

/-- A step consumes an input exactly if it is the handing over of a question. -/
theorem Stage.Moves.consumes_iff {transition : Transition α}
    (moves : stage.Moves box (transition.firings.map Firing.record) next) :
    transition.consumes = true
      ↔ ∃ question, stage.awaiting = none ∧ next = stage.hand question := by
  rw [consumes_eq]
  generalize transition.firings.map Firing.record = records at moves
  cases moves with
  | toss party value present idle inside =>
    refine ⟨by simp, ?_⟩
    rintro ⟨question, idle, same⟩
    have awaiting := congrArg Stage.awaiting same
    simp [Stage.toss, Stage.hand, idle] at awaiting
  | hand question drawn idle fresh =>
    exact ⟨fun _ => ⟨question, idle, rfl⟩, fun _ => by simp⟩
  | disclose question output weight awaited discloses =>
    constructor
    · simp [familyAfter_ne_inputSync]
    · rintro ⟨other, idle, -⟩
      rw [awaited] at idle
      cases idle

/-- A move discloses nothing and keeps the answers, or it discloses one possible answer to
the awaited question. -/
theorem Stage.Moves.answers_cases (moves : stage.Moves box records next) :
    (records.filter (·.1.discloses) = [] ∧ next.answers = stage.answers)
      ∨ ∃ question output weight, stage.awaiting = some question
        ∧ Discloses box stage.answers question output weight
        ∧ records.filter (·.1.discloses) = [(familyAfter stage.answers, .decimal weight)]
        ∧ next.answers = stage.answers ++ [question.answer output] := by
  cases moves with
  | toss | hand => exact Or.inl ⟨rfl, rfl⟩
  | disclose question output weight awaited discloses =>
    exact Or.inr ⟨question, output, weight, awaited, discloses,
      by simp [familyAfter_discloses], rfl⟩

/-- A move gives as many answers as firings of it disclose. -/
theorem Stage.Moves.length_answers (moves : stage.Moves box records next) :
    next.answers.length = stage.answers.length + (records.filter (·.1.discloses)).length := by
  rcases moves.answers_cases with ⟨silent, kept⟩ | ⟨_, _, _, -, -, disclosed, added⟩
  · rw [silent, kept]
    rfl
  · rw [disclosed, added, List.length_append]
    rfl

/-- A move hands over as many questions as it consumes inputs. -/
theorem Stage.Moves.length_questions (moves : stage.Moves box records next) :
    next.answers.length + next.awaiting.toList.length
      = stage.answers.length + stage.awaiting.toList.length
        + if records.any (·.1 == .inputSync) then 1 else 0 := by
  cases moves with
  | toss => simp [Stage.toss]
  | hand question drawn idle fresh => simp [Stage.hand, idle]
  | disclose question output weight awaited discloses =>
    simp [Stage.disclose, awaited, familyAfter_ne_inputSync]

/-- Every answer was disclosed by one firing. -/
theorem Follows.length_disclosures {trace : List (Transition α)}
    (follows : Follows box trace stage) :
    (disclosures trace).length = stage.answers.length := by
  induction follows with
  | start => rfl
  | step earlier _ moves _ inductionHypothesis =>
    rw [disclosures_append, List.length_append, inductionHypothesis,
      length_disclosures_singleton, moves.length_answers]

/-- Every question was handed over in one step. -/
theorem Follows.length_consumptions {trace : List (Transition α)}
    (follows : Follows box trace stage) :
    (trace.filter Transition.consumes).length
      = stage.answers.length + stage.awaiting.toList.length := by
  induction follows with
  | start => rfl
  | step earlier _ moves _ inductionHypothesis =>
    rw [List.filter_append, List.length_append, inductionHypothesis, moves.length_questions,
      List.filter_cons, List.filter_nil, consumes_eq]
    split <;> rfl

/-- The steps that a party has taken: one for a drawn value, two for drawing a value
and handing it over, one for disclosing. -/
def Stage.spent (stage : Stage) (party : Nat) : Nat :=
  (stage.drawn party).toList.length + 2 * (stage.seen? party).toList.length
    + (answerOf? stage.answers party).toList.length

/-- No party takes more than four steps. -/
theorem Stage.spent_le (stage : Stage) (party : Nat) : stage.spent party ≤ 4 := by
  have atMostOne {β : Type} (held : Option β) : held.toList.length ≤ 1 := by
    cases held <;> simp
  have drawn := atMostOne (stage.drawn party)
  have seen := atMostOne (stage.seen? party)
  have answered := atMostOne (answerOf? stage.answers party)
  unfold spent
  omega

/-- Every move is one step of one party. -/
theorem Stage.Moves.spent (moves : stage.Moves box records next) (sound : stage.Sound box) :
    ∃ party < box.partyCount,
      next.spent = Function.update stage.spent party (stage.spent party + 1) := by
  cases moves with
  | toss party value present idle inside =>
    refine ⟨party, present, funext fun other => ?_⟩
    by_cases same : other = party
    · subst same
      simp [Stage.spent, Stage.toss, Stage.seen?, idle]
      omega
    · simp [Stage.spent, Stage.toss, Stage.seen?, same]
  | hand question drawn idle fresh =>
    refine ⟨question.party, (sound.drawn _ _ drawn).1, funext fun other => ?_⟩
    by_cases same : other = question.party
    · subst same
      simp [Stage.spent, Stage.hand, Stage.seen?, drawn, idle, asked?, fresh]
    · simp [Stage.spent, Stage.hand, Stage.seen?, idle, same]
  | disclose question output weight awaited discloses =>
    obtain ⟨present, -, fresh⟩ := sound.awaiting question awaited
    have appended := answerOf?_append (show answerOf? stage.answers
      (question.answer output).party = none from fresh)
    refine ⟨question.party, present, funext fun other => ?_⟩
    by_cases same : other = question.party
    · subst same
      simp [Stage.spent, Stage.disclose, Stage.seen?, awaited, asked?, appended, fresh]
    · simp [Stage.spent, Stage.disclose, Stage.seen?, awaited, asked?, appended, same]

/-- A run is as long as what its parties have spent. -/
theorem Follows.length_eq_spent {trace : List (Transition α)} (follows : Follows box trace stage) :
    trace.length = ∑ party ∈ Finset.range box.partyCount, stage.spent party := by
  induction follows with
  | start => simp [Stage.spent, Stage.initial, Stage.seen?, asked?, answerOf?]
  | @step trace transition stage next earlier _ moves _ inductionHypothesis =>
    obtain ⟨party, present, spent⟩ := moves.spent earlier.sound
    have member : party ∈ Finset.range box.partyCount := Finset.mem_range.mpr present
    rw [List.length_append, inductionHypothesis, spent, Finset.sum_update_of_mem member,
      Finset.sum_eq_sum_sdiff_singleton_add member stage.spent, List.length_singleton]
    omega

/-- No run is longer than four steps for each party. -/
theorem Follows.length_le {trace : List (Transition α)} (follows : Follows box trace stage) :
    trace.length ≤ 4 * box.partyCount := by
  rw [follows.length_eq_spent]
  calc ∑ party ∈ Finset.range box.partyCount, stage.spent party
      ≤ ∑ _party ∈ Finset.range box.partyCount, 4 :=
        Finset.sum_le_sum fun party _ => stage.spent_le party
    _ = 4 * box.partyCount := by
        rw [Finset.sum_const, Finset.card_range, Nat.nsmul_eq_mul, Nat.mul_comm]

/-- Answers that can be given one after another: each is a possible answer to a question
to a party that has not answered before. -/
inductive Foreseen (box : Box α) : List Answer → Prop where
  | start : Foreseen box []
  | next {answers : List Answer} {question : Question} {output : Nat} {weight : α}
      (earlier : Foreseen box answers) (present : question.party < box.partyCount)
      (inside : question.input < box.inputRange)
      (fresh : answerOf? answers question.party = none)
      (discloses : Discloses box answers question output weight) :
      Foreseen box (answers ++ [question.answer output])

/-- Answers that can be given one after another leave a sound stage. -/
theorem Foreseen.sound {answers : List Answer} (foreseen : Foreseen box answers) :
    Stage.Sound box ⟨fun _ => none, answers, none⟩ := by
  induction foreseen with
  | start => exact Stage.sound_initial box
  | next _ present inside fresh discloses inductionHypothesis =>
    exact (inductionHypothesis.asking present inside fresh).disclose rfl discloses.lt

/-- A move keeps that the answers can be given one after another. -/
theorem Stage.Moves.foreseen (moves : stage.Moves box records next) (sound : stage.Sound box)
    (earlier : Foreseen box stage.answers) : Foreseen box next.answers := by
  cases moves with
  | toss => exact earlier
  | hand => exact earlier
  | disclose question output weight awaited discloses =>
    obtain ⟨present, inside, fresh⟩ := sound.awaiting question awaited
    exact .next earlier present inside fresh discloses

/-- The answers of a stage that is followed can be given one after another. -/
theorem Follows.foreseen {trace : List (Transition α)} (follows : Follows box trace stage) :
    Foreseen box stage.answers := by
  induction follows with
  | start => exact .start
  | step earlier _ moves _ inductionHypothesis =>
    exact moves.foreseen earlier.sound inductionHypothesis

/-- Answers that can be given one after another are given by a run, which may leave
nothing drawn and nobody awaited. For each answer the party draws the value it is asked
with, hands it over and discloses. -/
theorem Setting.run_of_foreseen {model : Model α} {output : Module α}
    {reduced normalised : List (Command α)}
    (setting : Setting box model output reduced normalised) {answers : List Answer}
    (foreseen : Foreseen box answers) :
    ∃ trace state, model.Run trace state ∧ Follows box trace ⟨fun _ => none, answers, none⟩
      ∧ Stage.Shown box ⟨fun _ => none, answers, none⟩ state := by
  induction foreseen with
  | start => exact ⟨[], _, .start, .start, setting.shown_initial⟩
  | @next answers question output weight _ present inside fresh discloses inductionHypothesis =>
    obtain ⟨trace, state, run, follows, shown⟩ := inductionHypothesis
    obtain ⟨tossing, run, -, follows, shown⟩ := setting.run_of_moves run follows shown
      (.toss question.party question.input present rfl inside)
    obtain ⟨handing, run, -, follows, shown⟩ := setting.run_of_moves run follows shown
      (.hand question (by simp [Stage.toss]) rfl fresh)
    obtain ⟨disclosing, run, -, follows, shown⟩ := setting.run_of_moves run follows shown
      (.disclose question output weight rfl discloses)
    have cleared : Function.update (Function.update (fun _ : Nat => (none : Option Nat))
        question.party (some question.input)) question.party none = fun _ => none := by
      simp
    simp only [Stage.disclose, Stage.hand, Stage.toss, cleared] at follows shown
    exact ⟨_, _, run, follows, shown⟩

end

end Disclosure

end Nonlocal
