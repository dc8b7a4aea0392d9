import Nonlocal.Proofs.Disclosure.Modules

/-!
# Runs of a generated model are disclosures

Three moves take one stage to the next. Every step of a generated model from a
state that shows a stage is one of these moves, whatever modules take part in it,
and every move that is possible at a stage is a step of the model. A run therefore
follows a sequence of stages, and what holds of all such sequences holds of all
interleavings.
-/

namespace Nonlocal

variable {α : Type}

/-- What is kept of a firing: the family of its command and the weight of its branch. -/
def Firing.record (firing : Firing α) : Family × Weight α :=
  (firing.command.key.family, firing.branch.weight)

namespace Disclosure

/-- The firing of an input module that hands a value over. -/
def handing (input : String) (question : Question) : Firing α :=
  ⟨consume question.party input question.input, certainBranch [⟨input, unset⟩]⟩

/-- The firing of the output module that records a value. -/
def copying (input : String) (question : Question) : Firing α :=
  ⟨inputSync question.party input question.input,
    certainBranch [⟨Identifier.readyFlag, .bool false⟩,
      ⟨Identifier.seenVariable input, intValue question.input⟩]⟩

variable {box : Box α}

section

variable [Zero α] [Add α] [Div α] [BEq α] [Scalar α] [LT α] [DecidableLT α]

/-- The moves from a stage, with what is recorded of them. -/
inductive Stage.Moves (box : Box α) (stage : Stage) : List (Family × Weight α) → Stage → Prop where
  /-- A party without an input value draws one. -/
  | toss (party value : Nat) (present : party < box.partyCount)
      (idle : stage.drawn party = none) (inside : value < box.inputRange) :
      Moves box stage [(.coinToss, .ratio 1 box.inputRange)] (stage.toss party value)
  /-- A party that has not been asked hands its value over while nobody is awaited. -/
  | hand (question : Question) (drawn : stage.drawn question.party = some question.input)
      (idle : stage.awaiting = none)
      (fresh : answerOf? stage.answers question.party = none) :
      Moves box stage [(.consume, .ratio 1 1), (.inputSync, .ratio 1 1)] (stage.hand question)
  /-- The awaited party discloses a possible output. -/
  | disclose (question : Question) (output : Nat) (weight : α)
      (awaited : stage.awaiting = some question)
      (discloses : Discloses box stage.answers question output weight) :
      Moves box stage [(familyAfter stage.answers, .decimal weight)]
        (stage.disclose (question.answer output))

/-- Every move leads from a sound stage to a sound stage. -/
theorem Stage.Moves.sound {stage next : Stage} {records : List (Family × Weight α)}
    (moves : stage.Moves box records next) (sound : stage.Sound box) : next.Sound box := by
  cases moves with
  | toss party value present idle inside => exact sound.toss present inside
  | hand question drawn idle fresh => exact sound.hand drawn fresh
  | disclose question output weight awaited discloses =>
    exact sound.disclose awaited discloses.lt

/-- A trace follows a sequence of stages, each step a move between the stages that are
shown before and after it. -/
inductive Follows (box : Box α) : List (Transition α) → Stage → Prop where
  | start : Follows box [] Stage.initial
  | step {trace : List (Transition α)} {transition : Transition α} {stage next : Stage}
      (earlier : Follows box trace stage) (shown : stage.Shown box transition.before)
      (moves : stage.Moves box (transition.firings.map Firing.record) next)
      (shownNext : next.Shown box transition.after) :
      Follows box (trace ++ [transition]) next

/-- Only sound stages are followed. -/
theorem Follows.sound {trace : List (Transition α)} {stage : Stage}
    (follows : Follows box trace stage) : stage.Sound box := by
  induction follows with
  | start => exact Stage.sound_initial box
  | step _ _ moves _ inductionHypothesis => exact moves.sound inductionHypothesis

namespace Setting

variable {model : Model α} {output : Module α} {reduced normalised : List (Command α)}
  (setting : Setting box model output reduced normalised)

include setting

/-- A declared variable is the ready flag and initially up, or another one and
initially unset. -/
theorem init_of_mem {declaration : Declaration}
    (member : declaration ∈ model.modules.flatMap Module.declarations) :
    declaration.name = Identifier.readyFlag ∧ declaration.init = .bool true
      ∨ declaration.name ≠ Identifier.readyFlag ∧ declaration.init = unset := by
  obtain ⟨part, inModel, declared⟩ := List.mem_flatMap.mp member
  have notReady := setting.separated.notReady
  rcases (setting.mem_modules part).mp inModel with ⟨party, input, named, rfl⟩ | rfl
  · obtain rfl := List.mem_singleton.mp declared
    exact Or.inr ⟨notReady _ (List.mem_append_left _ (List.mem_of_getElem? named)), rfl⟩
  · rw [setting.declarations, outputVariables] at declared
    rcases List.mem_append.mp declared with inFront | inCopies
    · rcases List.mem_cons.mp inFront with rfl | inOutputs
      · exact Or.inl ⟨rfl, rfl⟩
      · obtain ⟨name, listed, rfl⟩ := List.mem_map.mp inOutputs
        exact Or.inr ⟨notReady _ (List.mem_append_right _ listed), rfl⟩
    · obtain ⟨name, -, rfl⟩ := List.mem_map.mp inCopies
      exact Or.inr ⟨Identifier.seenVariable_ne_readyFlag name, rfl⟩

/-- Every slot is declared. -/
theorem exists_declaration {slot : Slot} {name : String} (named : slot.name? box = some name) :
    ∃ declaration ∈ model.modules.flatMap Module.declarations, declaration.name = name := by
  have inOutput : output ∈ model.modules := (setting.mem_modules output).mpr (Or.inr rfl)
  have declaredByOutput {declaration : Declaration}
      (member : declaration ∈ outputVariables box) :
      declaration ∈ model.modules.flatMap Module.declarations :=
    List.mem_flatMap.mpr ⟨output, inOutput, setting.declarations ▸ member⟩
  cases slot with
  | ready =>
    obtain rfl := Option.some.inj named
    exact ⟨_, declaredByOutput List.mem_cons_self, rfl⟩
  | input party =>
    refine ⟨rangeVariable name box.inputRange, List.mem_flatMap.mpr ?_, rfl⟩
    refine ⟨inputPart box name party, ?_, List.mem_singleton.mpr rfl⟩
    exact (setting.mem_modules _).mpr (Or.inl ⟨party, name, named, rfl⟩)
  | output party =>
    refine ⟨rangeVariable name box.outputRange, declaredByOutput ?_, rfl⟩
    refine List.mem_append_left _ (List.mem_cons_of_mem _ (List.mem_map.mpr ?_))
    exact ⟨name, List.mem_of_getElem? named, rfl⟩
  | seen party =>
    obtain ⟨input, inputNamed, rfl⟩ := Option.map_eq_some_iff.mp named
    refine ⟨rangeVariable (Identifier.seenVariable input) box.inputRange,
      declaredByOutput (List.mem_append_right _ (List.mem_map.mpr ?_)), rfl⟩
    exact ⟨input, List.mem_of_getElem? inputNamed, rfl⟩

/-- Initially nothing is drawn, asked or answered. -/
theorem shown_initial : Stage.initial.Shown box model.initial := by
  intro slot name named
  obtain ⟨declaration, member, sameName⟩ := setting.exists_declaration named
  cases found : (model.modules.flatMap Module.declarations).find? (·.name == name) with
  | none =>
    have absent := List.find?_eq_none.mp found declaration member
    simp [sameName] at absent
  | some first =>
    have firstName : first.name = name := by simpa using List.find?_some found
    have firstInit := setting.init_of_mem (List.mem_of_find?_eq_some found)
    simp only [Model.initial, found, Option.map_some, Option.some.injEq]
    rw [firstName] at firstInit
    have isReady {slot : Slot} (slotNamed : slot.name? box = some Identifier.readyFlag) :
        slot = .ready := setting.separated.slot_eq slotNamed rfl
    rcases firstInit with ⟨rfl, up⟩ | ⟨different, unsetFirst⟩
    · obtain rfl := isReady named
      exact up
    · cases slot with
      | ready => exact (different (Option.some.inj named).symm).elim
      | input | output | seen => exact unsetFirst

variable {stage next : Stage} {valuation : Valuation} {records : List (Family × Weight α)}
  {party value : Nat} {input : String}

omit setting [Zero α] [Add α] [Div α] [BEq α] [Scalar α] [LT α] [DecidableLT α] in
/-- A coin toss is enabled while its party has drawn nothing. -/
theorem coinToss_enabled_iff (shown : stage.Shown box valuation)
    (named : box.inputs[party]? = some input) (range : Nat) :
    (coinToss party range input : Command α).Enabled valuation ↔ stage.drawn party = none := by
  simp [Command.Enabled, Valuation.Satisfies, coinToss, shown.input named, holding_eq_unset]

/-- A value is consumed where its party has drawn it. -/
theorem consume_enabled_iff (sound : stage.Sound box) (shown : stage.Shown box valuation)
    (named : box.inputs[party]? = some input) (inside : value < box.inputRange) :
    (consume party input value : Command α).Enabled valuation
      ↔ stage.drawn party = some value := by
  rw [← drawn_eq_iff setting.shaped setting.storable sound shown named inside]
  simp [Command.Enabled, Valuation.Satisfies, consume]

/-- A value is copied where its party has drawn it and was not asked before, and nobody is
awaited. -/
theorem inputSync_enabled_iff (sound : stage.Sound box) (shown : stage.Shown box valuation)
    (named : box.inputs[party]? = some input) (inside : value < box.inputRange) :
    (inputSync party input value : Command α).Enabled valuation
      ↔ stage.awaiting = none ∧ stage.drawn party = some value
        ∧ answerOf? stage.answers party = none := by
  have split : (inputSync party input value : Command α).Enabled valuation
      ↔ stage.awaiting = none ∧ stage.drawn party = some value
        ∧ stage.seen? party = none := by
    rw [← drawn_eq_iff setting.shaped setting.storable sound shown named inside]
    simp [Command.Enabled, Valuation.Satisfies, inputSync, shown.ready, shown.seen named,
      holding_eq_unset]
  rw [split]
  refine and_congr_right fun idle => and_congr_right fun _ => ?_
  simp [Stage.seen?, idle, asked?]

/-- A command that moves alone tosses a coin or discloses an output. -/
theorem moves_of_alone {part : Module α} {firing : Firing α} (sound : stage.Sound box)
    (shown : stage.Shown box valuation) (member : part ∈ model.modules)
    (fires : part.Fires none valuation firing) :
    ∃ next, stage.Moves box [firing.record] next
      ∧ next.Shown box (valuation.assign firing.branch.updates) := by
  obtain ⟨command, branch⟩ := firing
  obtain ⟨own, labelled, enabled, taken⟩ := fires
  rcases (setting.mem_modules part).mp member with ⟨party, input, named, rfl⟩ | rfl
  · rcases (mem_inputPart command).mp own with rfl | ⟨value, -, rfl⟩
    · have idle := (coinToss_enabled_iff shown named box.inputRange).mp enabled
      obtain ⟨value, listed, rfl⟩ := List.mem_map.mp taken
      have present := (List.getElem?_eq_some_iff.mp named).1
      exact ⟨_, .toss party value present idle (List.mem_range.mp listed),
        shown.toss setting.separated named value⟩
    · cases labelled
  · rcases (setting.mem_output command).mp own with
      ⟨party, input, value, named, inside, rfl⟩ | disclosing
    · cases labelled
    · obtain ⟨question, awaited, serves⟩ := setting.made.serves_of_enabled setting.shaped
        setting.storable sound shown disclosing enabled
      obtain ⟨name, values, named, weighted, -, branches⟩ := serves.branches
      simp only [branches] at taken
      obtain ⟨⟨value, weight⟩, listed, rfl⟩ := List.mem_map.mp taken
      have moves := Stage.Moves.disclose question value weight awaited
        ⟨values, weighted, listed⟩
      rw [← serves.family] at moves
      exact ⟨_, moves, shown.disclose setting.separated sound awaited named value⟩

/-- A label belongs to a value of an input, and the two modules that hear it hand that
value over. -/
theorem moves_of_together {label : String} {firings : List (Firing α)} (sound : stage.Sound box)
    (shown : stage.Shown box valuation) (heard : model.listeners label ≠ [])
    (fires : List.Forall₂ (fun part firing => part.Fires (some label) valuation firing)
      (model.listeners label) firings) :
    ∃ next, stage.Moves box (firings.map Firing.record) next
      ∧ next.Shown box (valuation.assign (firings.flatMap (·.branch.updates))) := by
  obtain ⟨party, input, value, named, inside, rfl⟩ := setting.exists_of_listeners heard
  rw [setting.listeners_syncLabel named inside] at fires
  obtain ⟨⟨handing, handBranch⟩, rest, firstFires, restFire, rfl⟩ :=
    List.forall₂_cons_left_iff.mp fires
  obtain ⟨⟨copying, copyBranch⟩, others, secondFires, noMore, rfl⟩ :=
    List.forall₂_cons_left_iff.mp restFire
  obtain rfl := List.forall₂_nil_left_iff.mp noMore
  obtain ⟨own, labelled, -, taken⟩ := firstFires
  obtain ⟨copyOwn, copyLabelled, copyEnabled, copyTaken⟩ := secondFires
  rcases (mem_inputPart handing).mp own with rfl | ⟨other, -, rfl⟩
  · cases labelled
  obtain ⟨-, rfl⟩ := Identifier.syncLabel_injective (Option.some.inj labelled)
  rcases (setting.mem_output copying).mp copyOwn with
    ⟨copyParty, copyInput, copyValue, copyNamed, copyInside, rfl⟩ | disclosing
  · obtain ⟨rfl, rfl⟩ := Identifier.syncLabel_injective (Option.some.inj copyLabelled)
    obtain rfl := List.mem_singleton.mp taken
    obtain rfl := List.mem_singleton.mp copyTaken
    obtain ⟨idle, drawn, fresh⟩ :=
      (setting.inputSync_enabled_iff sound shown copyNamed copyInside).mp copyEnabled
    have handed : box.inputs[(Question.mk copyParty copyValue).party]? = some copyInput := copyNamed
    exact ⟨_, .hand _ drawn idle fresh, shown.hand setting.separated handed idle⟩
  · rw [(setting.made.label_family disclosing).1] at copyLabelled
    cases copyLabelled

/-- Every step from a state that shows a stage is a move of that stage. -/
theorem moves_of_step {transition : Transition α} (sound : stage.Sound box)
    (shown : stage.Shown box transition.before) (moved : model.Step transition) :
    ∃ next, stage.Moves box (transition.firings.map Firing.record) next
      ∧ next.Shown box transition.after := by
  cases moved with
  | alone before part firing member fires =>
    exact setting.moves_of_alone sound shown member fires
  | together before label firings heard fires =>
    exact setting.moves_of_together sound shown heard fires

/-- The step in which a party draws a value. -/
theorem step_of_toss (shown : stage.Shown box valuation) (present : party < box.partyCount)
    (idle : stage.drawn party = none) (inside : value < box.inputRange) :
    ∃ transition, transition.before = valuation ∧ model.Step transition
      ∧ transition.firings.map Firing.record = [(.coinToss, .ratio 1 box.inputRange)]
      ∧ (stage.toss party value).Shown box transition.after := by
  obtain ⟨input, named⟩ := setting.shaped.exists_input present
  have fires : (inputPart box input party).Fires none valuation
      ⟨coinToss party box.inputRange input,
        ⟨.ratio 1 box.inputRange, [⟨input, intValue value⟩]⟩⟩ := by
    constructor
    · exact (mem_inputPart _).mpr (Or.inl rfl)
    · rfl
    · exact (coinToss_enabled_iff shown named box.inputRange).mpr idle
    · exact List.mem_map.mpr ⟨value, List.mem_range.mpr inside, rfl⟩
  have member := (setting.mem_modules (inputPart box input party)).mpr
    (Or.inl ⟨party, input, named, rfl⟩)
  exact ⟨_, rfl, .alone valuation _ _ member fires, rfl,
    shown.toss setting.separated named value⟩

/-- The step in which the modules of an input hand a value over. -/
theorem step_of_hand {question : Question} (sound : stage.Sound box)
    (shown : stage.Shown box valuation)
    (drawn : stage.drawn question.party = some question.input) (idle : stage.awaiting = none)
    (fresh : answerOf? stage.answers question.party = none) :
    ∃ transition, transition.before = valuation ∧ model.Step transition
      ∧ transition.firings.map Firing.record
          = [(.consume, .ratio 1 1), (.inputSync, .ratio 1 1)]
      ∧ (stage.hand question).Shown box transition.after := by
  obtain ⟨present, inside⟩ := sound.drawn _ _ drawn
  obtain ⟨input, named⟩ := setting.shaped.exists_input present
  have hands : (inputPart box input question.party).Fires
      (some (Identifier.syncLabel input question.input)) valuation (handing input question) := by
    constructor
    · exact (mem_inputPart _).mpr (Or.inr ⟨question.input, inside, rfl⟩)
    · rfl
    · exact (setting.consume_enabled_iff sound shown named inside).mpr drawn
    · exact List.mem_singleton.mpr rfl
  have copies : output.Fires (some (Identifier.syncLabel input question.input)) valuation
      (copying input question) := by
    constructor
    · exact (setting.mem_output _).mpr (Or.inl ⟨_, _, _, named, inside, rfl⟩)
    · rfl
    · exact (setting.inputSync_enabled_iff sound shown named inside).mpr ⟨idle, drawn, fresh⟩
    · exact List.mem_singleton.mpr rfl
  have listeners := setting.listeners_syncLabel named inside
  have heard : model.listeners (Identifier.syncLabel input question.input) ≠ [] := by
    simp [listeners]
  have together : List.Forall₂
      (fun part firing =>
        part.Fires (some (Identifier.syncLabel input question.input)) valuation firing)
      (model.listeners (Identifier.syncLabel input question.input))
      [handing input question, copying input question] := by
    rw [listeners]
    exact .cons hands (.cons copies .nil)
  exact ⟨_, rfl, .together valuation _ _ heard together, rfl,
    shown.hand setting.separated named idle⟩

/-- The step in which the awaited party discloses an output. -/
theorem step_of_disclose {question : Question} {weight : α} (sound : stage.Sound box)
    (shown : stage.Shown box valuation) (awaited : stage.awaiting = some question)
    (discloses : Discloses box stage.answers question value weight) :
    ∃ transition, transition.before = valuation ∧ model.Step transition
      ∧ transition.firings.map Firing.record = [(familyAfter stage.answers, .decimal weight)]
      ∧ (stage.disclose (question.answer value)).Shown box transition.after := by
  obtain ⟨values, weighted, listed⟩ := discloses
  obtain ⟨otherValues, otherWeighted, made⟩ := setting.made.exists_enabled setting.shaped
    setting.storable sound shown awaited
  obtain rfl := Except.ok.inj (weighted.symm.trans otherWeighted)
  obtain ⟨command, member, enabled, serves⟩ := made (List.ne_nil_of_mem listed)
  obtain ⟨name, otherValues, named, otherWeighted, -, branches⟩ := serves.branches
  obtain rfl := Except.ok.inj (weighted.symm.trans otherWeighted)
  have fires : output.Fires none valuation ⟨command, disclosing name value weight⟩ := by
    constructor
    · exact (setting.mem_output _).mpr (Or.inr member)
    · exact serves.label
    · exact enabled
    · rw [branches]
      exact List.mem_map.mpr ⟨(value, weight), listed, rfl⟩
  have inModel := (setting.mem_modules output).mpr (Or.inr rfl)
  refine ⟨_, rfl, .alone valuation _ _ inModel fires, ?_,
    shown.disclose setting.separated sound awaited named value⟩
  simp [Firing.record, serves.family, disclosing]

/-- Every move of a stage is a step from each state that shows it. -/
theorem step_of_moves (sound : stage.Sound box) (shown : stage.Shown box valuation)
    (moves : stage.Moves box records next) :
    ∃ transition, transition.before = valuation ∧ model.Step transition
      ∧ transition.firings.map Firing.record = records ∧ next.Shown box transition.after := by
  cases moves with
  | toss party value present idle inside => exact setting.step_of_toss shown present idle inside
  | hand question drawn idle fresh => exact setting.step_of_hand sound shown drawn idle fresh
  | disclose question value weight awaited discloses =>
    exact setting.step_of_disclose sound shown awaited discloses

/-- Every run follows stages, and its last state shows the last of them. -/
theorem follows_of_run {trace : List (Transition α)} {state : Valuation}
    (run : model.Run trace state) :
    ∃ stage, Follows box trace stage ∧ stage.Shown box state := by
  induction run with
  | start => exact ⟨_, .start, setting.shown_initial⟩
  | step earlier moved inductionHypothesis =>
    obtain ⟨stage, follows, shown⟩ := inductionHypothesis
    obtain ⟨next, moves, shownNext⟩ := setting.moves_of_step follows.sound shown moved
    exact ⟨next, .step follows shown moves shownNext, shownNext⟩

/-- A run that has come to a stage can go on with every move of that stage. -/
theorem run_of_moves {trace : List (Transition α)} (run : model.Run trace valuation)
    (follows : Follows box trace stage) (shown : stage.Shown box valuation)
    (moves : stage.Moves box records next) :
    ∃ transition, model.Run (trace ++ [transition]) transition.after
      ∧ transition.firings.map Firing.record = records
      ∧ Follows box (trace ++ [transition]) next ∧ next.Shown box transition.after := by
  obtain ⟨transition, rfl, moved, rfl, shownNext⟩ :=
    setting.step_of_moves follows.sound shown moves
  exact ⟨transition, .step run moved, rfl, .step follows shown moves shownNext, shownNext⟩

end Setting

end

end Disclosure

end Nonlocal
