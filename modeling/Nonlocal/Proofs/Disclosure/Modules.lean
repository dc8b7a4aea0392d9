import Nonlocal.Proofs.Disclosure.Commands

/-!
# The modules of a generated model

The model of a valid box has one module for each input and one that discloses the
outputs. The first draw values and hand them over, the last copies them and holds
the disclosing commands, in the order of their keys. A label is heard by exactly
two modules: the input module of its party and the output module.
-/

namespace Nonlocal.Disclosure

variable {α : Type} {box : Box α}

/-- The module of an input. -/
def inputPart (box : Box α) (input : String) (party : Nat) : Module α where
  name := Identifier.inputModule input
  declarations := [rangeVariable input box.inputRange]
  commands := coinToss party box.inputRange input
    :: (List.range box.inputRange).map (consume party input)

/-- The modules of all inputs, in party order. -/
def inputParts (box : Box α) : List (Module α) :=
  box.inputs.zipIdx.map fun (input, party) => inputPart box input party

/-- An input module tosses a coin or hands a value over. -/
theorem mem_inputPart {input : String} {party : Nat} (command : Command α) :
    command ∈ (inputPart box input party).commands
      ↔ command = coinToss party box.inputRange input
        ∨ ∃ value < box.inputRange, command = consume party input value := by
  simp [inputPart, eq_comm]

/-- An input module hears the labels of the values of its own input. -/
theorem inputPart_hears {value : Nat} (inside : value < box.inputRange) (input other : String)
    (party : Nat) :
    (inputPart box other party).hears (Identifier.syncLabel input value) = true
      ↔ other = input := by
  rw [Module.hears, List.any_eq_true]
  constructor
  · rintro ⟨command, own, labelled⟩
    rcases (mem_inputPart command).mp own with rfl | ⟨otherValue, -, rfl⟩
    · simp [coinToss] at labelled
    · exact (Identifier.syncLabel_injective (by simpa [consume] using labelled)).1
  · rintro rfl
    exact ⟨consume party other value, (mem_inputPart _).mpr (Or.inr ⟨value, inside, rfl⟩),
      by simp [consume]⟩

/-- The modules of the inputs are those of the parties. -/
theorem mem_inputParts (part : Module α) :
    part ∈ inputParts box
      ↔ ∃ party input, box.inputs[party]? = some input ∧ part = inputPart box input party := by
  simp only [inputParts, List.mem_map, Prod.exists, List.mem_zipIdx_iff_getElem?]
  constructor
  · rintro ⟨input, party, named, rfl⟩
    exact ⟨party, input, named, rfl⟩
  · rintro ⟨party, input, named, rfl⟩
    exact ⟨input, party, named, rfl⟩

/-- The copying commands are those for the values of the inputs. -/
theorem mem_inputSyncCommands (command : Command α) :
    command ∈ inputSyncCommands box
      ↔ ∃ party input value, box.inputs[party]? = some input ∧ value < box.inputRange
        ∧ command = inputSync party input value := by
  simp only [inputSyncCommands, List.mem_flatMap, Prod.exists, List.mem_map, List.mem_range,
    List.mem_zipIdx_iff_getElem?]
  constructor
  · rintro ⟨input, party, named, value, inside, rfl⟩
    exact ⟨party, input, value, named, inside, rfl⟩
  · rintro ⟨party, input, value, named, inside, rfl⟩
    exact ⟨input, party, named, value, inside, rfl⟩

/-- The input modules are made in party order. -/
theorem inputParts_eq_ok {ε : Type} {parts : List (Module α)}
    (made : (List.range box.partyCount).mapM
      (fun party => (inputModule box party : Attempt ε (Module α))) = .ok parts) :
    parts = inputParts box := by
  rw [Attempt.mapM_eq_ok_iff, List.forall₂_iff_get] at made
  obtain ⟨sameLength, each⟩ := made
  have counted : parts.length = box.inputs.length := by
    rw [← sameLength, List.length_range]
    rfl
  apply List.ext_getElem
  · simp [inputParts, counted]
  · intro party inParts inInputs
    have here : party < box.inputs.length := counted ▸ inParts
    have given := each party (by simpa [Box.partyCount] using here) inParts
    simp only [List.get_eq_getElem, List.getElem_range] at given
    obtain ⟨input, named, same⟩ := (Attempt.bind_eq_ok_iff _ _ _).mp given
    rw [Attempt.get_eq_ok_iff, List.getElem?_eq_getElem here] at named
    obtain rfl := Option.some.inj named
    rw [← Except.ok.inj same]
    simp [inputParts, inputPart]

/-- Putting an element in its place keeps the elements. -/
theorem insert_perm {β : Type} (key : β → Key) (element : β) (elements : List β) :
    (Key.insert key element elements).Perm (element :: elements) := by
  induction elements with
  | nil => exact .refl _
  | cons first rest inductionHypothesis =>
    rw [Key.insert]
    split
    · exact .refl _
    · exact (inductionHypothesis.cons first).trans (.swap element first rest)

/-- Sorting by keys keeps the elements. -/
theorem sort_perm {β : Type} (key : β → Key) (elements : List β) :
    (Key.sort key elements).Perm elements := by
  induction elements with
  | nil => exact .refl _
  | cons first rest inductionHypothesis =>
    exact (insert_perm key first _).trans (inductionHypothesis.cons first)

/-- The output module with given commands for first and later answers. -/
def outputPart (box : Box α) (reduced normalised : List (Command α)) : Module α where
  name := Identifier.outputModule
  declarations := outputVariables box
  commands := Key.sort Command.key (inputSyncCommands box ++ reduced ++ normalised)

/-- The commands of the output module are the copying and the given ones. -/
theorem outputPart_perm (box : Box α) (reduced normalised : List (Command α)) :
    (outputPart box reduced normalised).commands.Perm
      (inputSyncCommands box ++ (reduced ++ normalised)) := by
  rw [← List.append_assoc]
  exact sort_perm Command.key _

section

variable [Zero α] [Add α] [Div α] [BEq α] [Scalar α] [LT α] [DecidableLT α]

/-- A command for a first answer moves alone and is of its family. -/
theorem Disclosing.reduced_family {reduced normalised : List (Command α)}
    (made : Disclosing box reduced normalised) {command : Command α}
    (member : command ∈ reduced) : command.label = none ∧ command.key.family = .reduced := by
  obtain ⟨question, -, succeeded⟩ := (Attempt.mem_filterMapM _ _ _ made.first command).mp member
  obtain ⟨_, _, _, _, _, spec⟩ := reducedCommand?_spec succeeded
  have serves := (spec command rfl).1
  exact ⟨serves.label, serves.family⟩

/-- A command for a later answer moves alone and is of its family. -/
theorem Disclosing.normalised_family {reduced normalised : List (Command α)}
    (made : Disclosing box reduced normalised) {command : Command α}
    (member : command ∈ normalised) :
    command.label = none ∧ command.key.family = .normalised := by
  obtain ⟨masks, -, -, commands⟩ := made.later
  obtain ⟨history, -, succeeded⟩ := (Attempt.mem_filterMapM _ _ _ commands command).mp member
  obtain ⟨key, label, -⟩ := command?_eq_some succeeded
  exact ⟨label, by rw [key]; rfl⟩

/-- A disclosing command moves alone and is of the family of first or of later answers. -/
theorem Disclosing.label_family {reduced normalised : List (Command α)}
    (made : Disclosing box reduced normalised) {command : Command α}
    (member : command ∈ reduced ++ normalised) :
    command.label = none
      ∧ (command.key.family = .reduced ∨ command.key.family = .normalised) := by
  rcases List.mem_append.mp member with inReduced | inNormalised
  · exact (made.reduced_family inReduced).imp id Or.inl
  · exact (made.normalised_family inNormalised).imp id Or.inr

/-- A label of a command belongs to a value of an input. -/
theorem Disclosing.exists_of_label {reduced normalised : List (Command α)}
    (made : Disclosing box reduced normalised) {output part : Module α}
    (commands : output.commands.Perm (inputSyncCommands box ++ (reduced ++ normalised)))
    (present : part ∈ inputParts box ++ [output]) {command : Command α}
    (own : command ∈ part.commands) {label : String} (labelled : command.label = some label) :
    ∃ (party : Nat) (input : String) (value : Nat), box.inputs[party]? = some input
      ∧ value < box.inputRange ∧ label = Identifier.syncLabel input value := by
  rw [List.mem_append, mem_inputParts, List.mem_singleton] at present
  rcases present with ⟨party, input, named, rfl⟩ | rfl
  · rcases (mem_inputPart command).mp own with rfl | ⟨value, inside, rfl⟩
    · cases labelled
    · exact ⟨party, input, value, named, inside, (Option.some.inj labelled).symm⟩
  · rw [commands.mem_iff, List.mem_append, mem_inputSyncCommands] at own
    rcases own with ⟨party, input, value, named, inside, rfl⟩ | disclosing
    · exact ⟨party, input, value, named, inside, (Option.some.inj labelled).symm⟩
    · rw [(made.label_family disclosing).1] at labelled
      cases labelled

/-- A model that is generated is made of the modules of the inputs and of the output module
with the commands for first and for later answers; the box lacks nothing. -/
theorem parts_of_model {model : Model α} (generated : Disclosure.model box = .ok model) :
    lacking? box = none ∧ ∃ reduced normalised, reducedCommands box = .ok reduced
      ∧ normalisedCommands box = .ok normalised
      ∧ model.modules = inputParts box ++ [outputPart box reduced normalised] := by
  unfold Disclosure.model at generated
  split at generated
  · cases generated
  next complete =>
  obtain ⟨parts, partsMade, rest⟩ := (Attempt.bind_eq_ok_iff _ _ _).mp generated
  obtain ⟨output, outputMade, same⟩ := (Attempt.bind_eq_ok_iff _ _ _).mp rest
  obtain rfl := Except.ok.inj same
  rw [Attempt.mapRefusal_eq_ok_iff] at outputMade
  obtain ⟨reduced, first, rest⟩ := (Attempt.bind_eq_ok_iff _ _ _).mp outputMade
  obtain ⟨normalised, later, same⟩ := (Attempt.bind_eq_ok_iff _ _ _).mp rest
  obtain rfl := Except.ok.inj same
  refine ⟨complete, reduced, normalised, first, later, ?_⟩
  rw [inputParts_eq_ok partsMade]
  rfl

/-- The box of a generated model is shaped, and the commands of the output module are the
disclosing ones. -/
theorem modules_of_model {model : Model α} (generated : Disclosure.model box = .ok model) :
    box.Shaped ∧ ∃ reduced normalised, Disclosing box reduced normalised
      ∧ model.modules = inputParts box ++ [outputPart box reduced normalised] := by
  obtain ⟨complete, reduced, normalised, first, later, modules⟩ := parts_of_model generated
  exact ⟨Box.shaped_of_lacking? complete, reduced, normalised,
    disclosing_of_ok (Box.few_of_lacking? complete) first later, modules⟩

/-- A storable box with separated names, and the model that was generated from it. -/
structure Setting (box : Box α) (model : Model α) (output : Module α)
    (reduced normalised : List (Command α)) : Prop where
  shaped : box.Shaped
  storable : box.Storable
  separated : box.Separated
  made : Disclosing box reduced normalised
  modules : model.modules = inputParts box ++ [output]
  declarations : output.declarations = outputVariables box
  commands : output.commands.Perm (inputSyncCommands box ++ (reduced ++ normalised))

/-- Generating a model from a storable box with separated names gives a setting. -/
theorem exists_setting {model : Model α} (separated : box.Separated) (storable : box.Storable)
    (generated : Disclosure.model box = .ok model) :
    ∃ output reduced normalised, Setting box model output reduced normalised := by
  obtain ⟨shaped, reduced, normalised, made, modules⟩ := modules_of_model generated
  exact ⟨outputPart box reduced normalised, reduced, normalised, {
    shaped := shaped
    storable := storable
    separated := separated
    made := made
    modules := modules
    declarations := rfl
    commands := outputPart_perm box reduced normalised }⟩

namespace Setting

variable {model : Model α} {output : Module α} {reduced normalised : List (Command α)}
  (setting : Setting box model output reduced normalised)

include setting

/-- A module is the module of an input or the output module. -/
theorem mem_modules (part : Module α) :
    part ∈ model.modules
      ↔ (∃ party input, box.inputs[party]? = some input ∧ part = inputPart box input party)
        ∨ part = output := by
  rw [setting.modules, List.mem_append, mem_inputParts, List.mem_singleton]

/-- A command of the output module copies a value or discloses an output. -/
theorem mem_output (command : Command α) :
    command ∈ output.commands
      ↔ (∃ party input value, box.inputs[party]? = some input ∧ value < box.inputRange
          ∧ command = inputSync party input value)
        ∨ command ∈ reduced ++ normalised := by
  rw [setting.commands.mem_iff, List.mem_append, mem_inputSyncCommands]

/-- A label that is heard belongs to a value of an input. -/
theorem exists_of_listeners {label : String} (heard : model.listeners label ≠ []) :
    ∃ (party : Nat) (input : String) (value : Nat), box.inputs[party]? = some input
      ∧ value < box.inputRange ∧ label = Identifier.syncLabel input value := by
  obtain ⟨part, listening⟩ := List.exists_mem_of_ne_nil _ heard
  obtain ⟨member, hears⟩ := List.mem_filter.mp listening
  obtain ⟨command, own, labelled⟩ := List.any_eq_true.mp hears
  exact setting.made.exists_of_label setting.commands (setting.modules ▸ member) own
    (by simpa using labelled)

/-- The output module hears the label of every value of an input. -/
theorem output_hears {party value : Nat} {input : String}
    (named : box.inputs[party]? = some input) (inside : value < box.inputRange) :
    output.hears (Identifier.syncLabel input value) = true := by
  rw [Module.hears, List.any_eq_true]
  refine ⟨inputSync party input value, (setting.mem_output _).mpr (Or.inl ?_), ?_⟩
  · exact ⟨party, input, value, named, inside, rfl⟩
  · simp [inputSync]

/-- One party has an input of that name. -/
theorem filter_input {party : Nat} {input : String} (named : box.inputs[party]? = some input) :
    (box.inputs.zipIdx.filter fun entry => entry.1 == input) = [(input, party)] := by
  have distinct : box.inputs.Nodup := (List.nodup_append.mp setting.separated.distinct).1
  have same : (box.inputs.zipIdx.filter fun entry => entry.1 == input)
      = box.inputs.zipIdx.filter (· == (input, party)) := by
    apply List.filter_congr
    rintro ⟨other, otherParty⟩ member
    rw [List.mem_zipIdx_iff_getElem?] at member
    rw [Bool.eq_iff_iff, beq_iff_eq, beq_iff_eq, Prod.mk.injEq]
    constructor
    · intro sameName
      have sameEntry : box.inputs[otherParty]? = box.inputs[party]? := by
        rw [member, named, sameName]
      have here : otherParty < box.inputs.length := (List.getElem?_eq_some_iff.mp member).1
      exact ⟨sameName, (List.getElem?_inj here distinct).mp sameEntry⟩
    · rintro ⟨sameName, -⟩
      exact sameName
  rw [same, List.filter_beq, (nodup_zipIdx _).count, if_pos]
  · rfl
  · exact List.mem_zipIdx_iff_getElem?.mpr named

/-- The label of a value is heard by the input module of its party and by the output
module. -/
theorem listeners_syncLabel {party value : Nat} {input : String}
    (named : box.inputs[party]? = some input) (inside : value < box.inputRange) :
    model.listeners (Identifier.syncLabel input value) = [inputPart box input party, output] := by
  have agree : (box.inputs.zipIdx.filter
        ((fun part : Module α => part.hears (Identifier.syncLabel input value)) ∘
          fun entry : String × Nat => inputPart box entry.1 entry.2))
      = box.inputs.zipIdx.filter fun entry => entry.1 == input := by
    apply List.filter_congr
    intro entry _
    rw [Bool.eq_iff_iff, Function.comp_apply, inputPart_hears inside, beq_iff_eq]
  rw [Model.listeners, setting.modules, List.filter_append, inputParts, List.filter_map, agree,
    setting.filter_input named]
  simp [setting.output_hears named inside]

end Setting

end

end Nonlocal.Disclosure
