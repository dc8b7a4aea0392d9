import Nonlocal.Proofs.Disclosure.Observation

/-!
# The protocol of a generated model

In every state that some interleaving reaches, the ready flag tells whether all
questions are answered: either it is up and every party that has seen an input has
disclosed, or it is down and exactly one party is awaited. At most one disclosing
command is enabled, only while the flag is down, and it discloses the output of the
awaited party. Along every run what has been set stays as it is, consumptions and
disclosures alternate, and no party takes more than four steps.
-/

namespace Nonlocal

variable {α : Type}

/-- The command at a place of a model is a disclosing one and is enabled. -/
def Model.Offers (model : Model α) (state : Valuation) (place : Nat) (command : Command α) :
    Prop :=
  (model.modules.flatMap Module.commands)[place]? = some command
    ∧ command.key.family.discloses = true ∧ command.Enabled state

/-- Two commands are not both disclosing ones that are enabled. -/
def Apart (state : Valuation) (first second : Command α) : Prop :=
  ¬ ((first.key.family.discloses = true ∧ first.Enabled state)
    ∧ (second.key.family.discloses = true ∧ second.Enabled state))

/-- A command that does not disclose is apart from all others. -/
theorem apart_of_silent {state : Valuation} {first : Command α}
    (silent : first.key.family.discloses = false) (second : Command α) :
    Apart state first second := by
  rintro ⟨⟨discloses, -⟩, -⟩
  rw [silent] at discloses
  cases discloses

namespace Disclosure

/-- What holds in a state of a disclosure. -/
structure Orderly (box : Box α) (model : Model α) (state : Valuation) : Prop where
  /-- Only parties that have seen an input disclose an output. -/
  seen : ∀ party, Disclosed box state party → Seen box state party
  /-- The flag is up or down. -/
  flag : state Identifier.readyFlag = some (.bool true)
    ∨ state Identifier.readyFlag = some (.bool false)
  /-- The flag is up exactly while all that have seen an input have disclosed. -/
  ready : state Identifier.readyFlag = some (.bool true)
    ↔ ∀ party, Seen box state party → Disclosed box state party
  /-- While the flag is down exactly one party is awaited. -/
  awaited : state Identifier.readyFlag = some (.bool false) → ∃! party, Awaited box state party
  /-- At most one disclosing command is enabled. -/
  single : ∀ first second left right,
    model.Offers state first left → model.Offers state second right → first = second
  /-- No disclosing command is enabled while the flag is up. -/
  closed : state Identifier.readyFlag = some (.bool true) →
    ∀ place command, ¬ model.Offers state place command
  /-- An enabled disclosing command is for the awaited party and sets its output. -/
  addressed : ∀ place command, model.Offers state place command →
    ∃ party output, Awaited box state party ∧ box.outputs[party]? = some output
      ∧ command.key.party = party
      ∧ ∀ branch ∈ command.branches, ∃ value,
        branch.updates = [⟨output, intValue value⟩, ⟨Identifier.readyFlag, .bool true⟩]

/-- What holds of a run of a disclosure. -/
structure OrderlyRun (box : Box α) (model : Model α) (trace : List (Transition α))
    (state : Valuation) : Prop where
  /-- An output or a copy of an input that was set earlier is as it was. -/
  kept : ∀ early late middle, trace = early ++ late → model.Run early middle →
    ∀ name ∈ box.outputs ++ box.inputs.map Identifier.seenVariable,
      middle name ≠ some unset → state name = middle name
  /-- One output is disclosed between two consumptions with none in between. -/
  alternating : ∀ early first between second late,
    trace = early ++ first :: (between ++ second :: late) →
    first.consumes = true → second.consumes = true →
    (∀ step ∈ between, step.consumes = false) → (disclosures between).length = 1
  /-- There are at most four steps for each party. -/
  bounded : trace.length ≤ 4 * box.partyCount

variable {box : Box α} {stage : Stage} {state : Valuation}

/-- No command of an input module discloses. -/
theorem inputParts_silent {command : Command α}
    (member : command ∈ (inputParts box).flatMap Module.commands) :
    command.key.family.discloses = false := by
  obtain ⟨part, inParts, own⟩ := List.mem_flatMap.mp member
  obtain ⟨⟨input, party⟩, -, rfl⟩ := List.mem_map.mp inParts
  rcases (mem_inputPart command).mp own with rfl | ⟨value, -, rfl⟩ <;> rfl

/-- No command that copies an input discloses. -/
theorem inputSyncCommands_silent {command : Command α}
    (member : command ∈ inputSyncCommands box) : command.key.family.discloses = false := by
  obtain ⟨party, input, value, -, -, rfl⟩ := (mem_inputSyncCommands command).mp member
  rfl

section

variable [Zero α] [Add α] [Div α] [BEq α] [Scalar α] [LT α] [DecidableLT α]

namespace Setting

variable {model : Model α} {output : Module α} {reduced normalised : List (Command α)}
  (setting : Setting box model output reduced normalised)

include setting

/-- The disclosing commands of a model are those of its output module. -/
theorem mem_of_discloses {command : Command α}
    (member : command ∈ model.modules.flatMap Module.commands)
    (discloses : command.key.family.discloses = true) : command ∈ reduced ++ normalised := by
  obtain ⟨part, inModel, own⟩ := List.mem_flatMap.mp member
  rcases (setting.mem_modules part).mp inModel with ⟨party, input, named, rfl⟩ | rfl
  · rcases (mem_inputPart command).mp own with rfl | ⟨value, -, rfl⟩ <;> cases discloses
  · rcases (setting.mem_output command).mp own with ⟨party, input, value, -, -, rfl⟩ | listed
    · cases discloses
    · exact listed

/-- Commands at different places are not both disclosing ones that are enabled
together. -/
theorem pairwise_apart (sound : stage.Sound box) (shown : stage.Shown box state) :
    (model.modules.flatMap Module.commands).Pairwise (Apart state) := by
  have ofOutput : output.commands.Pairwise (Apart state) := by
    refine (setting.commands.pairwise_iff ?_).mpr ?_
    · exact fun apart both => apart ⟨both.2, both.1⟩
    · refine List.pairwise_append.mpr ⟨?_, ?_, ?_⟩
      · apply List.pairwise_of_forall_mem_list
        intro first firstMember second _
        exact apart_of_silent (inputSyncCommands_silent firstMember) second
      · refine (setting.made.pairwise_exclusive setting.shaped setting.storable).imp ?_
        exact fun exclusive both => exclusive stage state sound shown ⟨both.1.2, both.2.2⟩
      · intro first firstMember second _
        exact apart_of_silent (inputSyncCommands_silent firstMember) second
  rw [setting.modules, List.flatMap_append, List.flatMap_singleton]
  refine List.pairwise_append.mpr ⟨?_, ofOutput, ?_⟩
  · apply List.pairwise_of_forall_mem_list
    intro first firstMember second _
    exact apart_of_silent (inputParts_silent firstMember) second
  · intro first firstMember second _
    exact apart_of_silent (inputParts_silent firstMember) second

/-- Two places that offer a disclosing command are the same place. -/
theorem offers_unique (sound : stage.Sound box) (shown : stage.Shown box state)
    {first second : Nat} {left right : Command α} (atFirst : model.Offers state first left)
    (atSecond : model.Offers state second right) : first = second := by
  obtain ⟨firstPlace, isLeft⟩ := atFirst
  obtain ⟨secondPlace, isRight⟩ := atSecond
  obtain ⟨inFirst, rfl⟩ := List.getElem?_eq_some_iff.mp firstPlace
  obtain ⟨inSecond, rfl⟩ := List.getElem?_eq_some_iff.mp secondPlace
  have apart := List.pairwise_iff_getElem.mp (setting.pairwise_apart sound shown)
  rcases Nat.lt_trichotomy first second with before | same | after
  · exact (apart first second inFirst inSecond before ⟨isLeft, isRight⟩).elim
  · exact same
  · exact (apart second first inSecond inFirst after ⟨isRight, isLeft⟩).elim

/-- An offered disclosing command serves the awaited question. -/
theorem serves_of_offers (sound : stage.Sound box) (shown : stage.Shown box state)
    {place : Nat} {command : Command α} (offered : model.Offers state place command) :
    ∃ question, stage.awaiting = some question ∧ Serves box stage.answers question command := by
  obtain ⟨atPlace, discloses, enabled⟩ := offered
  exact setting.made.serves_of_enabled setting.shaped setting.storable sound shown
    (setting.mem_of_discloses (List.mem_of_getElem? atPlace) discloses) enabled

/-- A state that shows a sound stage is orderly. -/
theorem orderly (sound : stage.Sound box) (shown : stage.Shown box state) :
    Orderly box model state where
  seen := by
    intro party disclosed
    rw [disclosed_iff setting.shaped shown] at disclosed
    rw [seen_iff shown, seen?_isSome_iff sound]
    exact ⟨disclosed.1, Or.inl disclosed.2⟩
  flag := by
    rw [shown.ready]
    cases stage.awaiting <;> simp
  ready := by
    have up : state Identifier.readyFlag = some (.bool true) ↔ stage.awaiting = none := by
      rw [shown.ready]
      cases stage.awaiting <;> simp
    have noneAwaited : (∀ party, Seen box state party → Disclosed box state party)
        ↔ ∀ party, ¬ Awaited box state party := by simp [Awaited]
    simp only [up, noneAwaited, awaited_iff setting.shaped sound shown]
    cases stage.awaiting <;> simp
  awaited := by
    intro down
    obtain ⟨question, awaited⟩ := shown.ready_eq_false_iff.mp down
    refine ⟨question.party, ?_, ?_⟩
    · exact (awaited_iff setting.shaped sound shown _).mpr ⟨question, awaited, rfl⟩
    · intro other otherAwaited
      obtain ⟨_, same, rfl⟩ := (awaited_iff setting.shaped sound shown other).mp otherAwaited
      rw [Option.some.inj (awaited.symm.trans same)]
  single := by
    intro first second left right atFirst atSecond
    exact setting.offers_unique sound shown atFirst atSecond
  closed := by
    intro up place command offered
    obtain ⟨question, awaited, -⟩ := setting.serves_of_offers sound shown offered
    rw [shown.ready, awaited] at up
    cases up
  addressed := by
    intro place command offered
    obtain ⟨question, awaited, serves⟩ := setting.serves_of_offers sound shown offered
    obtain ⟨name, values, named, -, -, branches⟩ := serves.branches
    refine ⟨question.party, name, ?_, named, serves.party, ?_⟩
    · exact (awaited_iff setting.shaped sound shown _).mpr ⟨question, awaited, rfl⟩
    · intro branch member
      rw [branches] at member
      obtain ⟨⟨value, weight⟩, -, rfl⟩ := List.mem_map.mp member
      exact ⟨value, rfl⟩

/-- A step keeps every output and every copy of an input that is set. -/
theorem step_keeps {trace : List (Transition α)} {transition : Transition α}
    (run : model.Run (trace ++ [transition]) state) {name : String}
    (listed : name ∈ box.outputs ++ box.inputs.map Identifier.seenVariable)
    (isSet : transition.before name ≠ some unset) :
    transition.after name = transition.before name := by
  obtain ⟨earlier, moved, -⟩ := run.last
  obtain ⟨stage, follows, shown⟩ := setting.follows_of_run earlier
  obtain ⟨next, moves, shownNext⟩ := setting.moves_of_step follows.sound shown moved
  obtain ⟨party, slot, kind, named⟩ : ∃ (party : Nat) (slot : Slot),
      (slot = .output party ∨ slot = .seen party) ∧ slot.name? box = some name := by
    rcases List.mem_append.mp listed with inOutputs | inCopies
    · obtain ⟨party, named⟩ := List.mem_iff_getElem?.mp inOutputs
      exact ⟨party, .output party, Or.inl rfl, named⟩
    · obtain ⟨input, member, rfl⟩ := List.mem_map.mp inCopies
      obtain ⟨party, named⟩ := List.mem_iff_getElem?.mp member
      exact ⟨party, .seen party, Or.inr rfl, by simp [Slot.name?, named]⟩
  rw [shown slot name named, Ne, Option.some.injEq] at isSet
  rw [shownNext slot name named, shown slot name named,
    moves.keeps follows.sound kind isSet]

/-- What is set at the end of a part of a run is the same at the end of the run.

The induction takes the last step off the rest of the run; it keeps what is set
before it, which is what was set in the middle. -/
theorem run_keeps {early late : List (Transition α)} {middle : Valuation}
    (run : model.Run (early ++ late) state) (halfway : model.Run early middle) {name : String}
    (listed : name ∈ box.outputs ++ box.inputs.map Identifier.seenVariable)
    (isSet : middle name ≠ some unset) : state name = middle name := by
  induction late using List.reverseRecOn generalizing state with
  | nil =>
    rw [List.append_nil] at run
    rw [run.state_eq halfway]
  | append_singleton front last inductionHypothesis =>
    rw [← List.append_assoc] at run
    obtain ⟨earlier, -, rfl⟩ := run.last
    have before := inductionHypothesis earlier
    rw [setting.step_keeps run listed (before ▸ isSet), before]

/-- Two consumptions with none in between have one disclosure in between.

After the first consumption one question more has been handed over than answered;
before the second one there are as many answers as questions. -/
theorem run_alternates {early between : List (Transition α)} {first second : Transition α}
    (run : model.Run (early ++ first :: (between ++ [second])) state)
    (firstConsumes : first.consumes = true) (secondConsumes : second.consumes = true)
    (quiet : ∀ step ∈ between, step.consumes = false) : (disclosures between).length = 1 := by
  have whole : early ++ first :: (between ++ [second])
      = (early ++ [first] ++ between) ++ [second] := by simp
  rw [whole] at run
  obtain ⟨beforeSecond, secondMoved, -⟩ := run.last
  obtain ⟨middle, afterFirst⟩ := beforeSecond.beginning rfl
  obtain ⟨beforeFirst, firstMoved, rfl⟩ := afterFirst.last
  obtain ⟨start, startFollows, startShown⟩ := setting.follows_of_run beforeFirst
  obtain ⟨asked, firstMoves, askedShown⟩ :=
    setting.moves_of_step startFollows.sound startShown firstMoved
  obtain ⟨question, -, rfl⟩ := firstMoves.consumes_iff.mp firstConsumes
  have askedFollows := Follows.step startFollows startShown firstMoves askedShown
  obtain ⟨idle, idleFollows, idleShown⟩ := setting.follows_of_run beforeSecond
  obtain ⟨next, secondMoves, -⟩ :=
    setting.moves_of_step idleFollows.sound idleShown secondMoved
  obtain ⟨other, nobody, -⟩ := secondMoves.consumes_iff.mp secondConsumes
  have answersBefore := askedFollows.length_disclosures
  have questionsBefore := askedFollows.length_consumptions
  have answersAfter := idleFollows.length_disclosures
  have questionsAfter := idleFollows.length_consumptions
  have silent : between.filter Transition.consumes = [] :=
    List.filter_eq_nil_iff.mpr fun step member => by simp [quiet step member]
  rw [disclosures_append, List.length_append, answersBefore] at answersAfter
  rw [List.filter_append, silent, List.append_nil, questionsBefore, nobody] at questionsAfter
  simp only [Stage.hand, Option.toList_some, Option.toList_none, List.length_cons,
    List.length_nil] at answersAfter questionsAfter
  omega

/-- Every run is orderly. -/
theorem orderlyRun {trace : List (Transition α)} (run : model.Run trace state) :
    OrderlyRun box model trace state where
  kept := by
    rintro early late middle rfl halfway name listed isSet
    exact setting.run_keeps run halfway listed isSet
  alternating := by
    rintro early first between second late rfl firstConsumes secondConsumes quiet
    have parts : early ++ first :: (between ++ second :: late)
        = (early ++ first :: (between ++ [second])) ++ late := by simp
    obtain ⟨middle, beginning⟩ := run.beginning parts
    exact setting.run_alternates beginning firstConsumes secondConsumes quiet
  bounded := by
    obtain ⟨stage, follows, -⟩ := setting.follows_of_run run
    exact follows.length_le

end Setting

/-- Every reachable state and every run of the model of a valid box is orderly, whatever
the interleaving. -/
theorem runs_orderly [One α] [Sub α] [LE α] [DecidableLE α] {box : Box α} {tolerance : α}
    {model : Model α} (storable : box.Storable)
    (valid : Validity.validate box tolerance = .ok ())
    (generated : Disclosure.model box = .ok model) :
    (∀ state, model.Reachable state → Orderly box model state)
      ∧ ∀ trace state, model.Run trace state → OrderlyRun box model trace state := by
  obtain ⟨output, reduced, normalised, setting⟩ :=
    exists_setting (Box.separated_of_validate valid) storable generated
  constructor
  · rintro state ⟨trace, run⟩
    obtain ⟨stage, follows, shown⟩ := setting.follows_of_run run
    exact setting.orderly follows.sound shown
  · intro trace state run
    exact setting.orderlyRun run

/-- The correlated box has a model, with orderly states and runs. -/
theorem correlated_runs_orderly :
    ∃ model, Disclosure.model (Box.correlated 0 0.5 : Box Float) = .ok model
      ∧ (∀ state, model.Reachable state → Orderly (Box.correlated 0 0.5) model state)
      ∧ ∀ trace state, model.Run trace state →
        OrderlyRun (Box.correlated 0 0.5) model trace state := by
  have valid : Validity.validate (Box.correlated 0 0.5 : Box Float) Validity.defaultTolerance
      = .ok () := Attempt.eq_ok_of_toOption (by decide +kernel)
  obtain ⟨model, generated⟩ :
      ∃ model, Disclosure.model (Box.correlated 0 0.5 : Box Float) = .ok model :=
    Attempt.exists_eq_ok (by decide +kernel)
  exact ⟨model, generated, runs_orderly (by decide) valid generated⟩

end

end Disclosure

end Nonlocal
