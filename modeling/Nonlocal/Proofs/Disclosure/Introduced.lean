import Nonlocal.Proofs.Disclosure.Identifiers

/-!
# The names that a model introduces

The naming check refuses a declared name that `Identifier.isGenerated` recognises. That
test builds no model: it looks at the inputs and at the count at the end of a name. Here
it is compared with the model itself, in which a name is a thing of the model's own if
it is the ready flag or a copy among the variables of the output module, the name of a
module, or the label of a command. The two are the same for all names.
-/

namespace Nonlocal.Disclosure

variable {α : Type} {box : Box α}

/-- The names in a model that no input and no output of its box has declared, by where
they occur. -/
inductive Introduces (box : Box α) (model : Model α) : String → Prop where
  /-- The ready flag among the variables of the output module. -/
  | flag (part : Module α) (present : part ∈ model.modules)
      (isOutput : part.name = Identifier.outputModule)
      (declared : Identifier.readyFlag ∈ part.declarations.map Declaration.name) :
      Introduces box model Identifier.readyFlag
  /-- The name of a module. -/
  | module (part : Module α) (present : part ∈ model.modules) : Introduces box model part.name
  /-- The copy of an input among the variables of the output module. -/
  | copy (part : Module α) (present : part ∈ model.modules)
      (isOutput : part.name = Identifier.outputModule) (input : String)
      (asked : input ∈ box.inputs)
      (declared : Identifier.seenVariable input ∈ part.declarations.map Declaration.name) :
      Introduces box model (Identifier.seenVariable input)
  /-- The label of a command. -/
  | label (part : Module α) (present : part ∈ model.modules) (command : Command α)
      (own : command ∈ part.commands) (label : String) (labelled : command.label = some label) :
      Introduces box model label

/-- The output module declares the ready flag. -/
theorem flag_mem_outputVariables (box : Box α) :
    Identifier.readyFlag ∈ (outputVariables box).map Declaration.name := by
  simp [outputVariables]

/-- The output module declares a copy of every input. -/
theorem copy_mem_outputVariables {input : String} (asked : input ∈ box.inputs) :
    Identifier.seenVariable input ∈ (outputVariables box).map Declaration.name := by
  simp only [outputVariables, List.map_cons, List.map_append, List.map_map, List.cons_append,
    List.mem_cons, List.mem_append, List.mem_map]
  exact .inr (.inr ⟨input, asked, rfl⟩)

/-- The module of an input is among the modules of the inputs. -/
theorem exists_inputPart {input : String} (asked : input ∈ box.inputs) :
    ∃ party, inputPart box input party ∈ inputParts box := by
  obtain ⟨party, named⟩ := List.mem_iff_getElem?.mp asked
  exact ⟨party, (mem_inputParts _).mpr ⟨party, input, named, rfl⟩⟩

/-- The label of a value is the label of the command that hands the value over. -/
theorem consume_mem_inputPart {value : Nat} (inside : value < box.inputRange) (input : String)
    (party : Nat) : consume party input value ∈ (inputPart box input party).commands :=
  (mem_inputPart _).mpr (.inr ⟨value, inside, rfl⟩)

variable {reduced normalised : List (Command α)} {model : Model α}

/-- Every generated name is introduced somewhere in the model. -/
theorem introduces_of_generated
    (modules : model.modules = inputParts box ++ [outputPart box reduced normalised])
    {name : String} (own : Identifier.Generated name box.inputs box.inputRange) :
    Introduces box model name := by
  have disclosing : outputPart box reduced normalised ∈ model.modules := by
    rw [modules]
    exact List.mem_append_right _ (List.mem_singleton_self _)
  have asking {part : Module α} (member : part ∈ inputParts box) : part ∈ model.modules := by
    rw [modules]
    exact List.mem_append_left _ member
  rcases own with rfl | rfl | ⟨input, asked, rfl | rfl | ⟨value, inside, rfl⟩⟩
  · exact .flag _ disclosing rfl (flag_mem_outputVariables box)
  · exact .module _ disclosing
  · obtain ⟨party, member⟩ := exists_inputPart asked
    exact .module _ (asking member)
  · exact .copy _ disclosing rfl input asked (copy_mem_outputVariables asked)
  · obtain ⟨party, member⟩ := exists_inputPart asked
    exact .label _ (asking member) _ (consume_mem_inputPart inside input party) _ rfl

section

variable [Zero α] [Add α] [Div α] [BEq α] [Scalar α] [LT α] [DecidableLT α]

/-- Every name that is introduced in the model is a generated one. -/
theorem generated_of_introduces (made : Disclosing box reduced normalised)
    (modules : model.modules = inputParts box ++ [outputPart box reduced normalised])
    {name : String} (introduced : Introduces box model name) :
    Identifier.Generated name box.inputs box.inputRange := by
  cases introduced with
  | flag part present isOutput declared => exact .inl rfl
  | module part present =>
    rw [modules, List.mem_append, mem_inputParts, List.mem_singleton] at present
    rcases present with ⟨party, input, named, rfl⟩ | rfl
    · exact .inr (.inr ⟨input, List.mem_of_getElem? named, .inl rfl⟩)
    · exact .inr (.inl rfl)
  | copy part present isOutput input asked declared =>
    exact .inr (.inr ⟨input, asked, .inr (.inl rfl)⟩)
  | label part present command own label labelled =>
    obtain ⟨party, input, value, named, inside, rfl⟩ := made.exists_of_label
      (outputPart_perm box reduced normalised) (modules ▸ present) own labelled
    exact .inr (.inr ⟨input, List.mem_of_getElem? named, .inr (.inr ⟨value, inside, rfl⟩)⟩)

/-- The names that are refused as generated ones are exactly the names that the model
introduces. Inputs need not be identifiers for this; that a label is told from its
digits alone rests on the range being a word, which it is if a model can be made. -/
theorem isGenerated_iff_introduces (generated : Disclosure.model box = .ok model)
    (name : String) :
    Identifier.isGenerated name box.inputs box.inputRange = true
      ↔ Introduces box model name := by
  obtain ⟨shaped, reduced, normalised, made, modules⟩ := modules_of_model generated
  have words : box.inputRange ≤ Word.limit :=
    (shaped.range_le_total box.inputRange).trans shaped.rowWords.le
  rw [Identifier.isGenerated_iff words]
  exact ⟨introduces_of_generated modules, generated_of_introduces made modules⟩

end

/-- A box whose first input is the beginning of its second, with names of both that look
like labels. -/
def nestedBox : Box Float where
  inputs := ["x", "x_1"]
  outputs := ["x_2", "x_01"]
  inputRange := 2
  outputRange := 1
  matrix := [[1], [1], [1], [1]]

/-- In the model of the nested box `x_1` is the label of a value, although it is an input
as well, while `x_01` and `x_2` only look like labels. -/
theorem nestedBox_introduces :
    ∃ model, Disclosure.model nestedBox = .ok model
      ∧ Introduces nestedBox model "x_1" ∧ Introduces nestedBox model "x_1_1"
      ∧ ¬ Introduces nestedBox model "x_01" ∧ ¬ Introduces nestedBox model "x_2" := by
  obtain ⟨model, generated⟩ : ∃ model, Disclosure.model nestedBox = .ok model :=
    Attempt.exists_eq_ok (by decide +kernel)
  refine ⟨model, generated, ?_, ?_, ?_, ?_⟩
  · exact (isGenerated_iff_introduces generated _).mp (by decide)
  · exact (isGenerated_iff_introduces generated _).mp (by decide)
  · exact fun introduced =>
      absurd ((isGenerated_iff_introduces generated _).mpr introduced) (by decide)
  · exact fun introduced =>
      absurd ((isGenerated_iff_introduces generated _).mpr introduced) (by decide)

end Nonlocal.Disclosure
