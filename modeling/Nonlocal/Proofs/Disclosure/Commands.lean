import Nonlocal.Proofs.Disclosure.CurrentHistory

/-!
# The commands that disclose outputs

A command answers a question if it moves alone and its branches are the possible
answers with their weights. Every command that is made for a first or a later
answer is enabled in exactly the states that show the stage it was made for, and
answers the question awaited there. Such a command exists unless no answer is
possible, and no two of them are enabled together.
-/

namespace Nonlocal.Disclosure

variable {α : Type} {box : Box α}

/-- The key of the command of a history. -/
def History.key (history : History) : Key where
  family := .normalised
  subsetSize := history.order.length
  subsetMask := history.mask
  party := history.candidate
  inputValue := history.input
  inputTuple := history.inputTuple
  outputTuple := history.outputTuple

/-- The questions in the order in which commands are made for first answers. -/
def questions (box : Box α) : List Question :=
  (List.range box.partyCount).flatMap fun party =>
    (List.range box.inputRange).map (Question.mk party)

/-- The questions are those to a party of the box with a value of its input. -/
theorem mem_questions (question : Question) :
    question ∈ questions box
      ↔ question.party < box.partyCount ∧ question.input < box.inputRange := by
  simp only [questions, List.mem_flatMap, List.mem_range, List.mem_map]
  constructor
  · rintro ⟨party, present, input, inside, rfl⟩
    exact ⟨present, inside⟩
  · rintro ⟨present, inside⟩
    exact ⟨question.party, present, question.input, inside, rfl⟩

/-- No question is listed twice. -/
theorem nodup_questions : (questions box).Nodup := by
  refine nodup_flatMap_of_source Question.party List.nodup_range ?_ ?_
  · intro party _
    apply List.nodup_range.map
    intro first second same
    exact (Question.mk.inj same).2
  · intro party _ question member
    obtain ⟨input, -, rfl⟩ := List.mem_map.mp member
    rfl

section

variable [Zero α] [Add α] [Div α] [BEq α] [Scalar α] [LT α] [DecidableLT α]

/-- A command that answers a question. -/
structure Serves (box : Box α) (answers : List Answer) (question : Question)
    (command : Command α) : Prop where
  label : command.label = none
  family : command.key.family = familyAfter answers
  party : command.key.party = question.party
  branches : ∃ output values, box.outputs[question.party]? = some output
    ∧ weights box answers question = .ok values ∧ values ≠ []
    ∧ command.branches = values.map fun (value, weight) => disclosing output value weight

/-- What a command for a first answer is made of: it answers the question, its guard
waits for the question with all outputs unset, and its key names the question. There is
none only if no answer is possible. -/
theorem reducedCommand?_spec {question : Question} {made : Option (Command α)}
    (succeeded : reducedCommand? box question.party question.input = .ok made) :
    ∃ input values, box.inputs[question.party]? = some input
      ∧ weights box [] question = .ok values ∧ (made = none ↔ values = [])
      ∧ ∀ command, made = some command → Serves box [] question command
        ∧ command.guard = ⟨Identifier.readyFlag, .bool false⟩
          :: ⟨Identifier.seenVariable input, intValue question.input⟩
          :: box.outputs.map (⟨·, unset⟩)
        ∧ command.key = { Key.single .reduced question.party question.input with
          subsetSize := box.partyCount } := by
  obtain ⟨input, inputNamed, rest⟩ := (Attempt.bind_eq_ok_iff _ _ _).mp succeeded
  obtain ⟨output, outputNamed, rest⟩ := (Attempt.bind_eq_ok_iff _ _ _).mp rest
  obtain ⟨possible, listed, rest⟩ := (Attempt.bind_eq_ok_iff _ _ _).mp rest
  rw [Attempt.get_eq_ok_iff] at inputNamed outputNamed
  let values := possible.map fun (output, p) => (output, p / rowTotal (possible.map Prod.snd))
  have weighted : weights box [] question = .ok values := by
    have same : chance box [] question = box.reducedProb question.party question.input := by
      funext output
      rfl
    rw [weights, same, listed]
    rfl
  have emptyIff : possible.isEmpty ↔ values = [] := by simp [values]
  refine ⟨input, values, inputNamed, weighted, ?_, fun command isMade => ?_⟩
  · rw [← emptyIff]
    split at rest
    · next empty =>
      obtain rfl := Except.ok.inj rest
      simp [empty]
    · next nonempty =>
      obtain rfl := Except.ok.inj rest
      simp [nonempty]
  · subst isMade
    split at rest
    · cases rest
    · next nonempty =>
      obtain rfl := Option.some.inj (Except.ok.inj rest)
      refine ⟨⟨rfl, rfl, rfl, output, values, outputNamed, weighted, ?_, ?_⟩, rfl, rfl⟩
      · rwa [Ne, ← emptyIff]
      · simp [values, Function.comp_def]

omit [Scalar α] in
/-- A command for a later answer is made of the key, the guard and the branches of its
history, and is left out if there are no branches. -/
theorem command?_cases {history : History} {made : Option (Command α)}
    (succeeded : history.command? box = .ok made) :
    ∃ branches, history.branches box = .ok branches
      ∧ ((made = none ∧ branches = [])
        ∨ ∃ guard : List Binding, branches ≠ []
          ∧ (history.guard box : Attempt QueryError (List Binding)) = .ok guard
          ∧ made = some ⟨history.key, none, guard, branches⟩) := by
  obtain ⟨branches, branched, rest⟩ := (Attempt.bind_eq_ok_iff _ _ _).mp succeeded
  refine ⟨branches, branched, ?_⟩
  split at rest
  · next empty => exact Or.inl ⟨(Except.ok.inj rest).symm, by simpa using empty⟩
  · next nonempty =>
    obtain ⟨guard, guarded, same⟩ := (Attempt.bind_eq_ok_iff _ _ _).mp rest
    exact Or.inr ⟨guard, by simpa using nonempty, guarded, (Except.ok.inj same).symm⟩

omit [Scalar α] in
/-- A command for a later answer has the key and the guard of its history, and it has
branches. -/
theorem command?_eq_some {history : History} {command : Command α}
    (succeeded : history.command? box = .ok (some command)) :
    command.key = history.key ∧ command.label = none
      ∧ (history.guard box : Attempt QueryError (List Binding)) = .ok command.guard
      ∧ history.branches box = .ok command.branches ∧ command.branches ≠ [] := by
  obtain ⟨branches, branched, ⟨absent, -⟩ | ⟨guard, nonempty, guarded, present⟩⟩ :=
    command?_cases succeeded
  · cases absent
  · obtain rfl := Option.some.inj present
    exact ⟨rfl, rfl, guarded, branched, nonempty⟩

section

variable {history : History} (listed : history.Listed box) {answers : List Answer}
  {question : Question} (begun : answers ≠ [])
  (current : history.Current box.partyCount answers question)

include listed begun current

/-- The branches of a current history are the possible answers to its question. -/
theorem branches_spec {branches : List (Branch α)}
    (branched : history.branches box = .ok branches) :
    ∃ output values, box.outputs[question.party]? = some output
      ∧ weights box answers question = .ok values
      ∧ branches = values.map fun (value, weight) => disclosing output value weight := by
  obtain ⟨input, inputMade, rest⟩ := (Attempt.bind_eq_ok_iff _ _ _).mp branched
  obtain ⟨output, outputNamed, rest⟩ := (Attempt.bind_eq_ok_iff _ _ _).mp rest
  obtain ⟨values, valued, same⟩ := (Attempt.bind_eq_ok_iff _ _ _).mp rest
  rw [current.fullTuple_inputs listed] at inputMade
  obtain rfl := Except.ok.inj inputMade
  rw [Attempt.get_eq_ok_iff, current.candidate] at outputNamed
  have later : answers.isEmpty = false := by simpa using begun
  have sameChance : chance box answers question = (fun value => do
      let full ← history.fullTuple box.partyCount value history.knownOutputs
      box.normalisedProb (queryInput box.partyCount answers question) full history.order) := by
    funext value
    rw [current.fullTuple_outputs listed, current.order_eq listed, chance, later]
    rfl
  have weighted : weights box answers question = .ok values := by
    rw [weights, sameChance, valued, later]
    rfl
  exact ⟨output, values, outputNamed, weighted, (Except.ok.inj same).symm⟩

/-- What a command for a later answer is made of: it answers the question for which its
history is current. There is none only if no answer is possible. -/
theorem command?_spec {made : Option (Command α)} (succeeded : history.command? box = .ok made) :
    ∃ values, weights box answers question = .ok values ∧ (made = none ↔ values = [])
      ∧ ∀ command, made = some command → Serves box answers question command := by
  obtain ⟨branches, branched, outcome⟩ := command?_cases succeeded
  obtain ⟨output, values, outputNamed, weighted, rfl⟩ :=
    branches_spec listed begun current branched
  rw [Ne, List.map_eq_nil_iff] at outcome
  refine ⟨values, weighted, ?_, fun command isMade => ?_⟩
  · rcases outcome with ⟨rfl, empty⟩ | ⟨guard, nonempty, -, rfl⟩
    · simp [empty]
    · simp [nonempty]
  · rcases outcome with ⟨rfl, -⟩ | ⟨guard, nonempty, -, rfl⟩
    · cases isMade
    · obtain rfl := Option.some.inj isMade
      have later : familyAfter answers = .normalised := by
        cases answers with
        | nil => exact (begun rfl).elim
        | cons answer rest => rfl
      exact ⟨rfl, later.symm, current.candidate, output, values, outputNamed, weighted, nonempty,
        rfl⟩

end

end

/-- Two commands that no state of the box enables together. -/
def Exclusive (box : Box α) (first second : Command α) : Prop :=
  ∀ (stage : Stage) (valuation : Valuation), stage.Sound box → stage.Shown box valuation →
    ¬ (first.Enabled valuation ∧ second.Enabled valuation)

section

variable {stage : Stage} {valuation : Valuation}
  (shaped : box.Shaped) (storable : box.Storable)
  (sound : stage.Sound box) (shown : stage.Shown box valuation)

include shaped storable sound shown

/-- An input holds a value exactly if the party has drawn it. -/
theorem drawn_eq_iff {party value : Nat} {input : String} (named : box.inputs[party]? = some input)
    (inside : value < box.inputRange) :
    valuation input = some (intValue value) ↔ stage.drawn party = some value := by
  have words := shaped.inputRange_le storable
  rw [shown.input named, Option.some.injEq, show intValue value = holding (some value) from rfl,
    holding_inj]
  · exact fun count drawn => (sound.drawn party count drawn).2.le.trans words
  · rintro count ⟨⟩
    exact inside.le.trans words

/-- The copy of an input holds a value exactly if the party was asked with it. -/
theorem seen_eq_iff {party value : Nat} {input : String} (named : box.inputs[party]? = some input)
    (inside : value < box.inputRange) :
    valuation (Identifier.seenVariable input) = some (intValue value)
      ↔ stage.seen? party = some value := by
  have words := shaped.inputRange_le storable
  rw [shown.seen named, Option.some.injEq, show intValue value = holding (some value) from rfl,
    holding_inj]
  · exact fun count seen => (sound.seen?_lt seen).le.trans words
  · rintro count ⟨⟩
    exact inside.le.trans words

/-- An output holds what a history knows of it exactly if that is what was disclosed. -/
theorem output_eq_iff {party : Nat} {output : String}
    (named : box.outputs[party]? = some output) {held : Option Nat}
    (inside : ∀ count, held = some count → count < box.outputRange) :
    valuation output = some (holding held) ↔ told? stage.answers party = held := by
  have words := shaped.outputRange_le storable
  rw [shown.output named, Option.some.injEq, holding_inj]
  · exact fun count told => (sound.told?_lt told).le.trans words
  · exact fun count holds => (inside count holds).le.trans words

/-- A command for a first answer is enabled exactly if its question is awaited and
nobody has answered. -/
theorem reduced_enabled_iff {question : Question} {input : String}
    (inside : question.input < box.inputRange)
    (named : box.inputs[question.party]? = some input) {command : Command α}
    (guarded : command.guard = ⟨Identifier.readyFlag, .bool false⟩
      :: ⟨Identifier.seenVariable input, intValue question.input⟩
      :: box.outputs.map (⟨·, unset⟩)) :
    command.Enabled valuation ↔ stage.awaiting = some question ∧ stage.answers = [] := by
  have holds : command.Enabled valuation
      ↔ valuation Identifier.readyFlag = some (.bool false)
        ∧ valuation (Identifier.seenVariable input) = some (intValue question.input)
        ∧ ∀ output ∈ box.outputs, valuation output = some (holding none) := by
    simp [Command.Enabled, Valuation.Satisfies, guarded, holding]
  rw [holds, seen_eq_iff shaped storable sound shown named inside]
  have allSilent : (∀ output ∈ box.outputs, valuation output = some (holding none))
      ↔ stage.answers = [] := by
    constructor
    · intro unsetOutputs
      rw [List.eq_nil_iff_forall_not_mem]
      intro answer member
      obtain ⟨output, outputNamed⟩ := shaped.exists_output (sound.answers answer member).1
      have silent := (output_eq_iff shaped storable sound shown outputNamed (by simp)).mp
        (unsetOutputs output (List.mem_of_getElem? outputNamed))
      obtain ⟨other, found⟩ := exists_answerOf? member
      simp [told?, found] at silent
    · intro silent output member
      obtain ⟨party, outputNamed⟩ := List.mem_iff_getElem?.mp member
      refine (output_eq_iff shaped storable sound shown outputNamed (by simp)).mpr ?_
      simp [told?, answerOf?, silent]
  rw [allSilent]
  constructor
  · rintro ⟨-, seen, silent⟩
    exact ⟨Stage.awaiting_of_seen? seen (by simp [answerOf?, silent]), silent⟩
  · rintro ⟨awaited, silent⟩
    refine ⟨?_, Stage.seen?_awaiting awaited, silent⟩
    exact shown.ready_eq_false_iff.mpr ⟨question, awaited⟩

/-- In a state that satisfies the guard of a listed history, the parties have seen and
disclosed what the history says. -/
theorem seen_disclosed_of_satisfies {history : History} (listed : history.Listed box)
    {guard : List Binding} {ε : Type}
    (guarded : (history.guard box : Attempt ε (List Binding)) = .ok guard)
    (satisfied : valuation.Satisfies guard) {party : Nat} (here : party < box.partyCount) :
    (∀ value, history.seen? party = some value → stage.seen? party = some value)
      ∧ history.known? history.knownOutputs party = told? stage.answers party := by
  obtain ⟨-, seenHolds, outputsHold⟩ :=
    (history.satisfies_guard_iff listed guarded valuation).mp satisfied
  constructor
  · intro value asked
    obtain ⟨input, named⟩ := shaped.exists_input here
    exact (seen_eq_iff shaped storable sound shown named (listed.seen?_lt asked)).mp
      (seenHolds party input named value asked)
  · obtain ⟨output, named⟩ := shaped.exists_output here
    exact ((output_eq_iff shaped storable sound shown named fun _ => listed.known?_lt).mp
      (outputsHold party output named)).symm

/-- A listed history whose guard holds is the current one: its candidate has seen its input
and has not answered, so it is the awaited party, and the others have answered what the
history says. -/
theorem current_of_satisfies {history : History} (listed : history.Listed box)
    {guard : List Binding} {ε : Type}
    (guarded : (history.guard box : Attempt ε (List Binding)) = .ok guard)
    (satisfied : valuation.Satisfies guard) :
    ∃ question, stage.awaiting = some question
      ∧ history.Current box.partyCount stage.answers question := by
  have agree {party : Nat} (here : party < box.partyCount) :=
    seen_disclosed_of_satisfies shaped storable sound shown listed guarded satisfied here
  have silent : answerOf? stage.answers history.candidate = none := by
    have unknown : history.known? history.knownOutputs history.candidate = none := by
      rw [← Option.not_isSome_iff_eq_none, history.isSome_known? listed.outputs_fit.1]
      exact listed.candidate_not_revealed
    simpa [told?, unknown, eq_comm] using (agree listed.candidate).2
  have candidateSeen : stage.seen? history.candidate = some history.input :=
    (agree listed.candidate).1 history.input (by simp [History.seen?])
  refine ⟨_, Stage.awaiting_of_seen? candidateSeen silent, rfl, rfl, fun party here => ?_,
    fun party here => (agree here).2⟩
  have revealed := history.isSome_known? listed.outputs_fit.1 party
  rw [(agree here).2, History.isSome_told?,
    ← history.isSome_known? listed.inputs_fit.1 party] at revealed
  cases found : answerOf? stage.answers party with
  | none => simpa [found, asked?] using revealed
  | some answer =>
    have different : party ≠ history.candidate := by
      rintro rfl
      rw [silent] at found
      cases found
    obtain ⟨value, known⟩ := Option.isSome_iff_exists.mp (revealed.mp (by simp [found]))
    have same := (agree here).1 value (by simpa [History.seen?, different] using known)
    rw [sound.seen?_of_answerOf? found] at same
    rw [known, ← same]
    simp [asked?, found]

/-- The guard of a current history holds. -/
theorem satisfies_of_current {history : History} (listed : history.Listed box)
    {guard : List Binding} {ε : Type}
    (guarded : (history.guard box : Attempt ε (List Binding)) = .ok guard) {question : Question}
    (awaited : stage.awaiting = some question)
    (current : history.Current box.partyCount stage.answers question) :
    valuation.Satisfies guard := by
  rw [history.satisfies_guard_iff listed guarded, shown.ready_eq_false_iff]
  refine ⟨⟨question, awaited⟩, ?_, ?_⟩
  · intro party input named value asked
    have here : party < box.partyCount := (List.getElem?_eq_some_iff.mp named).1
    rw [seen_eq_iff shaped storable sound shown named (listed.seen?_lt asked)]
    unfold History.seen? at asked
    split at asked
    · next same =>
      obtain rfl := Option.some.inj asked
      rw [same, current.candidate, Stage.seen?_awaiting awaited, current.input]
    · rw [current.inputs party here] at asked
      obtain ⟨answer, found, rfl⟩ := Option.map_eq_some_iff.mp asked
      exact sound.seen?_of_answerOf? found
  · intro party output named
    have here : party < box.partyCount := by
      rw [← shaped.balanced]
      exact (List.getElem?_eq_some_iff.mp named).1
    rw [output_eq_iff shaped storable sound shown named fun _ => listed.known?_lt]
    exact (current.outputs party here).symm

/-- The guard of a listed history holds exactly if the history is the current one. -/
theorem history_enabled_iff {history : History} (listed : history.Listed box)
    {guard : List Binding} {ε : Type}
    (guarded : (history.guard box : Attempt ε (List Binding)) = .ok guard) :
    valuation.Satisfies guard ↔ ∃ question, stage.awaiting = some question
      ∧ history.Current box.partyCount stage.answers question := by
  constructor
  · exact current_of_satisfies shaped storable sound shown listed guarded
  · rintro ⟨question, awaited, current⟩
    exact satisfies_of_current shaped storable sound shown listed guarded awaited current

end

section

variable [Zero α] [Add α] [Div α] [BEq α] [Scalar α] [LT α] [DecidableLT α]

/-- The command of a question for a first answer is enabled only while the question is
awaited and nobody has answered. -/
theorem awaited_of_reducedCommand? {stage : Stage} {valuation : Valuation} (shaped : box.Shaped)
    (storable : box.Storable) (sound : stage.Sound box) (shown : stage.Shown box valuation)
    {question : Question} (listed : question ∈ questions box) {command : Command α}
    (succeeded : reducedCommand? box question.party question.input = .ok (some command))
    (enabled : command.Enabled valuation) :
    stage.awaiting = some question ∧ stage.answers = [] := by
  obtain ⟨input, values, named, -, -, spec⟩ := reducedCommand?_spec succeeded
  obtain ⟨-, guarded, -⟩ := spec command rfl
  have inside := ((mem_questions question).mp listed).2
  exact (reduced_enabled_iff shaped storable sound shown inside named guarded).mp enabled

omit [Scalar α] in
/-- The command of a listed history is enabled only while the history is the current one. -/
theorem current_of_command? {stage : Stage} {valuation : Valuation} (shaped : box.Shaped)
    (storable : box.Storable) (sound : stage.Sound box) (shown : stage.Shown box valuation)
    {history : History} (listed : history.Listed box) {command : Command α}
    (succeeded : history.command? box = .ok (some command))
    (enabled : command.Enabled valuation) :
    ∃ question, stage.awaiting = some question
      ∧ history.Current box.partyCount stage.answers question :=
  (history_enabled_iff shaped storable sound shown listed
    (command?_eq_some succeeded).2.2.1).mp enabled

/-- The commands for first and for later answers, made one by one for the questions
and for the listed histories. -/
structure Disclosing (box : Box α) (reduced normalised : List (Command α)) : Prop where
  first : (questions box).filterMapM
      (fun question => reducedCommand? box question.party question.input) = .ok reduced
  later : ∃ masks : List Nat, (histories box masks).Nodup
      ∧ (∀ history, history ∈ histories box masks ↔ history.Listed box)
      ∧ (histories box masks).filterMapM (·.command? box) = .ok normalised

omit [BEq α] in
/-- The commands for first answers are made one by one for the questions. -/
theorem reducedCommands_eq_ok {reduced : List (Command α)}
    (made : reducedCommands box = .ok reduced) :
    (questions box).filterMapM
      (fun question => reducedCommand? box question.party question.input) = .ok reduced := by
  obtain ⟨perParty, succeeded, same⟩ := (Attempt.bind_eq_ok_iff _ _ _).mp made
  obtain rfl := Except.ok.inj same
  refine Attempt.filterMapM_flatMap _ _ _ _ ?_
  simpa only [Attempt.filterMapM_map] using succeeded

omit [Scalar α] in
/-- The commands for later answers are made one by one for the histories of all sets of
pending parties, in the order of the sets. -/
theorem normalisedCommands_eq_ok (few : box.partyCount ≤ PartySet.maxParties)
    {normalised : List (Command α)} (made : normalisedCommands box = .ok normalised) :
    ∃ masks : List Nat, masks.Pairwise PartySet.Precedes
      ∧ (∀ mask, mask ∈ masks ↔ mask < 2 ^ box.partyCount ∧ 0 < PartySet.population mask
          ∧ PartySet.population mask < box.partyCount)
      ∧ (histories box masks).filterMapM (·.command? box) = .ok normalised := by
  obtain ⟨masks, listed, rest⟩ := (Attempt.bind_eq_ok_iff _ _ _).mp made
  obtain ⟨perMask, succeeded, same⟩ := (Attempt.bind_eq_ok_iff _ _ _).mp rest
  obtain rfl := Except.ok.inj same
  obtain ⟨proper, properListed, ordered, exactly⟩ := PartySet.proper_exact (ε := QueryError) few
  obtain rfl := Except.ok.inj (properListed.symm.trans listed)
  refine ⟨proper, ordered, exactly, Attempt.filterMapM_flatMap _ _ _ _ ?_⟩
  have words : box.partyCount ≤ Word.width := few.trans (by decide)
  simpa only [PartySet.members_eq words, bind, Except.bind] using succeeded

/-- The disclosing commands of a model are made for all questions and all listed
histories. -/
theorem disclosing_of_ok (few : box.partyCount ≤ PartySet.maxParties)
    {reduced normalised : List (Command α)}
    (first : reducedCommands box = .ok reduced)
    (later : normalisedCommands box = .ok normalised) :
    Disclosing box reduced normalised := by
  refine ⟨reducedCommands_eq_ok first, ?_⟩
  obtain ⟨masks, ordered, exactly, made⟩ := normalisedCommands_eq_ok few later
  have distinct : masks.Nodup := by
    refine ordered.imp ?_
    rintro first second precedes rfl
    rcases precedes with smaller | ⟨-, smaller⟩ <;> exact Nat.lt_irrefl _ smaller
  exact ⟨masks, nodup_histories distinct, mem_histories exactly, made⟩

namespace Disclosing

variable {reduced normalised : List (Command α)} {stage : Stage} {valuation : Valuation}
  (made : Disclosing box reduced normalised) (shaped : box.Shaped) (storable : box.Storable)

include made shaped storable

/-- An enabled command answers the awaited question. -/
theorem serves_of_enabled (sound : stage.Sound box) (shown : stage.Shown box valuation)
    {command : Command α} (member : command ∈ reduced ++ normalised)
    (enabled : command.Enabled valuation) :
    ∃ question, stage.awaiting = some question ∧ Serves box stage.answers question command := by
  rcases List.mem_append.mp member with inReduced | inNormalised
  · obtain ⟨question, listed, succeeded⟩ :=
      (Attempt.mem_filterMapM _ _ _ made.first command).mp inReduced
    obtain ⟨awaited, silent⟩ :=
      awaited_of_reducedCommand? shaped storable sound shown listed succeeded enabled
    obtain ⟨_, _, _, _, _, spec⟩ := reducedCommand?_spec succeeded
    exact ⟨question, awaited, silent ▸ (spec command rfl).1⟩
  · obtain ⟨masks, -, exactly, commands⟩ := made.later
    obtain ⟨history, member, succeeded⟩ :=
      (Attempt.mem_filterMapM _ _ _ commands command).mp inNormalised
    have listed := (exactly history).mp member
    obtain ⟨question, awaited, current⟩ :=
      current_of_command? shaped storable sound shown listed succeeded enabled
    obtain ⟨values, -, -, serves⟩ :=
      command?_spec listed (current.begun listed) current succeeded
    exact ⟨question, awaited, serves command rfl⟩

/-- The weights of an awaited question are known, and unless there are none, a command
with them is enabled. -/
theorem exists_enabled (sound : stage.Sound box) (shown : stage.Shown box valuation)
    {question : Question} (awaited : stage.awaiting = some question) :
    ∃ values, weights box stage.answers question = .ok values
      ∧ (values ≠ [] → ∃ command ∈ reduced ++ normalised, command.Enabled valuation
          ∧ Serves box stage.answers question command) := by
  obtain ⟨present, inside, silent⟩ := sound.awaiting question awaited
  by_cases begun : stage.answers = []
  · obtain ⟨outcome, succeeded⟩ := Attempt.succeeds_of_filterMapM _ _ _ made.first question
      ((mem_questions question).mpr ⟨present, inside⟩)
    obtain ⟨input, values, named, weighted, absent, spec⟩ := reducedCommand?_spec succeeded
    refine ⟨values, begun ▸ weighted, ?_⟩
    intro nonempty
    obtain ⟨command, rfl⟩ := Option.ne_none_iff_exists'.mp (absent.not.mpr nonempty)
    obtain ⟨serves, guarded, -⟩ := spec command rfl
    refine ⟨command, List.mem_append_left _ ?_, ?_, begun ▸ serves⟩
    · refine (Attempt.mem_filterMapM _ _ _ made.first command).mpr ⟨question, ?_, succeeded⟩
      exact (mem_questions question).mpr ⟨present, inside⟩
    · exact (reduced_enabled_iff shaped storable sound shown inside named guarded).mpr
        ⟨awaited, begun⟩
  · obtain ⟨history, listed, current⟩ :=
      History.exists_current begun sound.answers present inside silent
    obtain ⟨masks, -, exactly, commands⟩ := made.later
    obtain ⟨outcome, succeeded⟩ := Attempt.succeeds_of_filterMapM _ _ _ commands history
      ((exactly history).mpr listed)
    obtain ⟨values, weighted, absent, serves⟩ := command?_spec listed begun current succeeded
    refine ⟨values, weighted, ?_⟩
    intro nonempty
    obtain ⟨command, rfl⟩ := Option.ne_none_iff_exists'.mp (absent.not.mpr nonempty)
    refine ⟨command, List.mem_append_right _ ?_, ?_, serves command rfl⟩
    · exact (Attempt.mem_filterMapM _ _ _ commands command).mpr
        ⟨history, (exactly history).mpr listed, succeeded⟩
    · exact (history_enabled_iff shaped storable sound shown listed
        (command?_eq_some succeeded).2.2.1).mpr ⟨question, awaited, current⟩

/-- No two of the commands are enabled together. First answers are told apart by
their questions, later ones by their histories, and the two kinds by whether anybody
has answered. -/
theorem pairwise_exclusive : (reduced ++ normalised).Pairwise (Exclusive box) := by
  obtain ⟨masks, distinct, exactly, commands⟩ := made.later
  rw [List.pairwise_append]
  refine ⟨?_, ?_, ?_⟩
  · refine Attempt.pairwise_filterMapM _ _ _ made.first nodup_questions ?_
    rintro first firstListed second secondListed different left right isLeft isRight
      stage valuation sound shown ⟨leftEnabled, rightEnabled⟩
    obtain ⟨awaited, -⟩ :=
      awaited_of_reducedCommand? shaped storable sound shown firstListed isLeft leftEnabled
    obtain ⟨otherAwaited, -⟩ :=
      awaited_of_reducedCommand? shaped storable sound shown secondListed isRight rightEnabled
    exact different (Option.some.inj (awaited.symm.trans otherAwaited))
  · refine Attempt.pairwise_filterMapM _ _ _ commands distinct ?_
    rintro first firstMember second secondMember different left right isLeft isRight
      stage valuation sound shown ⟨leftEnabled, rightEnabled⟩
    have firstListed := (exactly first).mp firstMember
    have secondListed := (exactly second).mp secondMember
    obtain ⟨question, awaited, current⟩ :=
      current_of_command? shaped storable sound shown firstListed isLeft leftEnabled
    obtain ⟨other, otherAwaited, otherCurrent⟩ :=
      current_of_command? shaped storable sound shown secondListed isRight rightEnabled
    obtain rfl := Option.some.inj (awaited.symm.trans otherAwaited)
    exact different (current.unique firstListed otherCurrent secondListed)
  · rintro left inReduced right inNormalised stage valuation sound shown
      ⟨leftEnabled, rightEnabled⟩
    obtain ⟨question, questionListed, isLeft⟩ :=
      (Attempt.mem_filterMapM _ _ _ made.first left).mp inReduced
    obtain ⟨-, silent⟩ :=
      awaited_of_reducedCommand? shaped storable sound shown questionListed isLeft leftEnabled
    obtain ⟨history, member, isRight⟩ :=
      (Attempt.mem_filterMapM _ _ _ commands right).mp inNormalised
    have listed := (exactly history).mp member
    obtain ⟨other, -, current⟩ :=
      current_of_command? shaped storable sound shown listed isRight rightEnabled
    exact current.begun listed silent

end Disclosing

end

end Nonlocal.Disclosure
