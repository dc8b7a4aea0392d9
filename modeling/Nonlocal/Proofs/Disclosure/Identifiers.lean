import Nonlocal.Proofs.Disclosure.Modules
import Nonlocal.Proofs.Identifier.Kinds
import Nonlocal.Proofs.Validity.Outcome

/-!
# The identifiers of a generated model

A model names its modules, its variables, and the labels on which values are handed over.
The naming check keeps the declared variables away from every generated name, and
generated names of most kinds cannot be the same. What the check does not look at are
clashes among generated names: the module of an input may have the name of the copy or of
a label of another input. These are the only clashes there are.
-/

namespace Nonlocal

variable {α : Type}

/-- The labels on which a module hands values over, once for each command that does so. -/
def Module.handovers (part : Module α) : List String :=
  part.commands.filterMap fun command =>
    if command.key.family = .consume then command.label else none

/-- The names of a model: of its modules, of its variables, and of its labels. -/
def Model.identifiers (model : Model α) : List String :=
  model.modules.map Module.name
    ++ model.modules.flatMap (fun part => part.declarations.map Declaration.name)
    ++ model.modules.flatMap Module.handovers

namespace Box

variable {box : Box α}

/-- The labels of the values of an input. -/
def labels (box : Box α) (input : String) : List String :=
  (List.range box.inputRange).map (Identifier.syncLabel input)

/-- The names that the model of a box has for things of its own, kind by kind. -/
def generatedByKind (box : Box α) : List (List String) :=
  [[Identifier.readyFlag], [Identifier.outputModule],
    box.inputs.map Identifier.seenVariable, box.inputs.flatMap box.labels,
    box.inputs.map Identifier.inputModule]

/-- No module of an input has the name of the copy or of a label of an input. -/
structure ModulesApart (box : Box α) : Prop where
  fromCopies : ∀ input ∈ box.inputs, ∀ other ∈ box.inputs,
    Identifier.seenVariable input ≠ Identifier.inputModule other
  fromLabels : ∀ input ∈ box.inputs, ∀ value < box.inputRange, ∀ other ∈ box.inputs,
    Identifier.syncLabel input value ≠ Identifier.inputModule other

/-- A name is a label of an input if it is the label of a value of the range. -/
theorem mem_labels {input name : String} :
    name ∈ box.labels input
      ↔ ∃ value < box.inputRange, name = Identifier.syncLabel input value := by
  simp [labels, eq_comm]

/-- These are the names that the naming check takes for generated ones. -/
theorem mem_generatedByKind {name : String} :
    name ∈ box.generatedByKind.flatten
      ↔ Identifier.Generated name box.inputs box.inputRange := by
  simp only [generatedByKind, Identifier.Generated, List.flatten_cons, List.flatten_nil,
    List.append_nil, List.mem_append, List.mem_singleton, List.mem_map, List.mem_flatMap,
    mem_labels]
  refine or_congr_right (or_congr_right ⟨?_, ?_⟩)
  · rintro (⟨input, member, rfl⟩ | ⟨input, member, label⟩ | ⟨input, member, rfl⟩)
    · exact ⟨input, member, .inr (.inl rfl)⟩
    · exact ⟨input, member, .inr (.inr label)⟩
    · exact ⟨input, member, .inl rfl⟩
  · rintro ⟨input, member, rfl | rfl | label⟩
    · exact .inr (.inr ⟨input, member, rfl⟩)
    · exact .inl ⟨input, member, rfl⟩
    · exact .inr (.inl ⟨input, member, label⟩)

/-- Generated names of one kind are told apart by what they are for. -/
theorem nodup_of_mem_generatedByKind (distinct : box.inputs.Nodup) {names : List String}
    (member : names ∈ box.generatedByKind) : names.Nodup := by
  simp only [generatedByKind, List.mem_cons, List.not_mem_nil, or_false] at member
  rcases member with rfl | rfl | rfl | rfl | rfl
  · exact List.nodup_singleton _
  · exact List.nodup_singleton _
  · exact distinct.map fun _ _ => Identifier.seenVariable_injective
  · rw [List.nodup_flatMap]
    refine ⟨fun input _ => List.nodup_range.map fun _ _ same =>
      (Identifier.syncLabel_injective same).2, distinct.imp fun apart label own others => ?_⟩
    obtain ⟨_, -, rfl⟩ := List.mem_map.mp own
    obtain ⟨_, -, same⟩ := List.mem_map.mp others
    exact apart (Identifier.syncLabel_injective same).1.symm
  · exact distinct.map Identifier.inputModule_injective

/-- A name with another end than copies have is none of them. -/
theorem not_mem_copies {name : String} {char : Char} (ends : name.toList.getLast? = some char)
    (other : char ≠ 'n') : name ∉ box.inputs.map Identifier.seenVariable := by
  intro member
  obtain ⟨input, -, same⟩ := List.mem_map.mp member
  exact Identifier.seenVariable_ne ends other input same

/-- A name with another end than labels have is none of them. -/
theorem not_mem_labels {name : String} {char : Char} (ends : name.toList.getLast? = some char)
    (noDigit : char.isDigit = false) : name ∉ box.inputs.flatMap box.labels := by
  intro member
  obtain ⟨input, -, label⟩ := List.mem_flatMap.mp member
  obtain ⟨value, -, same⟩ := mem_labels.mp label
  exact Identifier.syncLabel_ne ends noDigit input value same.symm

/-- A name with another start than the modules of inputs have is none of them. -/
theorem not_mem_modules {name : String} {char : Char} (starts : name.toList.head? = some char)
    (other : char ≠ 'I') : name ∉ box.inputs.map Identifier.inputModule := by
  intro member
  obtain ⟨input, -, same⟩ := List.mem_map.mp member
  exact Identifier.inputModule_ne starts other input same

/-- No copy is a label. -/
theorem copies_disjoint_labels :
    List.Disjoint (box.inputs.map Identifier.seenVariable) (box.inputs.flatMap box.labels) := by
  rintro name copy label
  obtain ⟨input, -, rfl⟩ := List.mem_map.mp copy
  exact not_mem_labels (Identifier.getLast?_seenVariable input) (by decide) label

/-- The kinds have no name in common if the modules of the inputs, which start like none of
the fixed names, share none with the copies and the labels. -/
theorem pairwise_generatedByKind_iff :
    box.generatedByKind.Pairwise List.Disjoint
      ↔ List.Disjoint (box.inputs.map Identifier.seenVariable)
          (box.inputs.map Identifier.inputModule)
        ∧ List.Disjoint (box.inputs.flatMap box.labels)
          (box.inputs.map Identifier.inputModule) := by
  simp only [generatedByKind, List.pairwise_cons, List.forall_mem_cons, List.singleton_disjoint,
    List.mem_singleton, forall_eq, List.not_mem_nil, false_implies, implies_true,
    List.Pairwise.nil, and_true]
  have readyEnds : Identifier.readyFlag.toList.getLast? = some 'y' := by decide
  have readyStarts : Identifier.readyFlag.toList.head? = some 'r' := by decide
  have outputEnds : Identifier.outputModule.toList.getLast? = some 'T' := by decide
  have outputStarts : Identifier.outputModule.toList.head? = some 'O' := by decide
  constructor
  · rintro ⟨-, -, ⟨-, copies⟩, labels⟩
    exact ⟨copies, labels⟩
  · rintro ⟨copies, labels⟩
    refine ⟨⟨by decide, ?_, ?_, ?_⟩, ⟨?_, ?_, ?_⟩, ⟨copies_disjoint_labels, copies⟩, labels⟩
    · exact not_mem_copies readyEnds (by decide)
    · exact not_mem_labels readyEnds (by decide)
    · exact not_mem_modules readyStarts (by decide)
    · exact not_mem_copies outputEnds (by decide)
    · exact not_mem_labels outputEnds (by decide)
    · exact not_mem_modules outputStarts (by decide)

/-- Generated names are all different if and only if the modules of the inputs keep apart
from the copies and the labels. All other kinds are told apart by their ends. -/
theorem nodup_generatedByKind_iff (distinct : box.inputs.Nodup) :
    box.generatedByKind.flatten.Nodup ↔ box.ModulesApart := by
  rw [List.nodup_flatten, pairwise_generatedByKind_iff]
  constructor
  · rintro ⟨-, copies, labels⟩
    refine ⟨fun input member other otherMember same => ?_,
      fun input member value inside other otherMember same => ?_⟩
    · exact copies (List.mem_map_of_mem member) (same ▸ List.mem_map_of_mem otherMember)
    · exact labels (List.mem_flatMap.mpr ⟨input, member, mem_labels.mpr ⟨value, inside, rfl⟩⟩)
        (same ▸ List.mem_map_of_mem otherMember)
  · intro apart
    refine ⟨fun names => nodup_of_mem_generatedByKind distinct, fun name copy ofModule => ?_,
      fun name label ofModule => ?_⟩
    · obtain ⟨input, member, rfl⟩ := List.mem_map.mp copy
      obtain ⟨other, otherMember, same⟩ := List.mem_map.mp ofModule
      exact apart.fromCopies input member other otherMember same.symm
    · obtain ⟨input, member, labelled⟩ := List.mem_flatMap.mp label
      obtain ⟨value, inside, rfl⟩ := mem_labels.mp labelled
      obtain ⟨other, otherMember, same⟩ := List.mem_map.mp ofModule
      exact apart.fromLabels input member value inside other otherMember same.symm

end Box

namespace Disclosure

variable {box : Box α}

/-- What the modules of the inputs have by their inputs alone, in party order. -/
theorem map_inputParts {β : Type} {part : Module α → β} {own : String → β}
    (same : ∀ input party, part (inputPart box input party) = own input) :
    (inputParts box).map part = box.inputs.map own :=
  calc (inputParts box).map part = box.inputs.zipIdx.map (own ∘ Prod.fst) := by
        rw [inputParts, List.map_map]
        exact List.map_congr_left fun entry _ => same entry.1 entry.2
    _ = box.inputs.map own := by rw [← List.map_map, List.zipIdx_map_fst]

/-- The module of an input hands the values of its input over. -/
theorem handovers_inputPart (box : Box α) (input : String) (party : Nat) :
    (inputPart box input party).handovers = box.labels input := by
  have kept : (fun command : Command α =>
        if command.key.family = .consume then command.label else none) ∘ consume party input
      = some ∘ Identifier.syncLabel input := rfl
  rw [Module.handovers, inputPart, List.filterMap_cons_none rfl, List.filterMap_map, kept,
    List.filterMap_eq_map, Box.labels]

section

variable [Zero α] [Add α] [Div α] [BEq α] [Scalar α] [LT α] [DecidableLT α]
  {reduced normalised : List (Command α)} (made : Disclosing box reduced normalised)

include made

/-- The output module hands nothing over. -/
theorem handovers_outputPart : (outputPart box reduced normalised).handovers = [] := by
  rw [Module.handovers, List.filterMap_eq_nil_iff]
  intro command member
  rw [(outputPart_perm box reduced normalised).mem_iff, List.mem_append] at member
  rcases member with copying | disclosing
  · obtain ⟨party, input, value, -, -, rfl⟩ := (mem_inputSyncCommands command).mp copying
    rfl
  · rw [(made.label_family disclosing).1, ite_self]

/-- The names of a model are those that its box declares and those that it has for things
of its own. -/
theorem identifiers_perm {model : Model α}
    (modules : model.modules = inputParts box ++ [outputPart box reduced normalised]) :
    model.identifiers.Perm (box.declared ++ box.generatedByKind.flatten) := by
  have named : model.modules.map Module.name
      = box.inputs.map Identifier.inputModule ++ [Identifier.outputModule] := by
    rw [modules, List.map_append, map_inputParts fun _ _ => rfl]
    rfl
  have declared : model.modules.flatMap (fun part => part.declarations.map Declaration.name)
      = box.inputs ++ (Identifier.readyFlag :: box.outputs
        ++ box.inputs.map Identifier.seenVariable) := by
    have outputs : (outputVariables box).map Declaration.name = Identifier.readyFlag :: box.outputs
        ++ box.inputs.map Identifier.seenVariable := by
      simp [outputVariables, rangeVariable, Function.comp_def]
    rw [modules, List.flatMap_append, List.flatMap_def, map_inputParts fun _ _ => rfl,
      List.flatMap_singleton, outputPart, outputs, ← List.flatMap_def]
    simp [rangeVariable]
  have labelled : model.modules.flatMap Module.handovers = box.inputs.flatMap box.labels := by
    rw [modules, List.flatMap_append, List.flatMap_def, map_inputParts (handovers_inputPart box),
      List.flatMap_singleton, handovers_outputPart made, List.append_nil, List.flatMap_def]
  rw [Model.identifiers, named, declared, labelled, List.perm_iff_count]
  intro name
  simp only [Box.declared, Box.generatedByKind, List.flatten_cons, List.flatten_nil,
    List.append_nil, List.count_append, List.count_cons, List.count_nil]
  omega

omit made

/-- The names of a model that is generated from a box with usable names are those that the
box declares and those that the model has for things of its own, its labels among them.
They are all different if and only if no module of an input has the name of the copy or
of a label of an input, which no check looks at. -/
theorem identifiers_distinct_iff {model : Model α}
    (passed : Validity.checkVariableNaming box = .ok ())
    (generated : Disclosure.model box = .ok model) :
    model.identifiers.Perm (box.declared ++ box.generatedByKind.flatten)
      ∧ (∀ part ∈ model.modules, ∀ command ∈ part.commands, ∀ label,
          command.label = some label → ∃ input ∈ box.inputs, label ∈ box.labels input)
      ∧ (model.identifiers.Nodup ↔ box.ModulesApart) := by
  obtain ⟨shaped, reduced, normalised, made, modules⟩ := modules_of_model generated
  have listed := identifiers_perm made modules
  have words : box.inputRange ≤ Word.limit :=
    (shaped.range_le_total box.inputRange).trans shaped.rowWords.le
  have named : box.Named := (Validity.checkVariableNaming_eq_ok_iff words).mp passed
  have apart : List.Disjoint box.declared box.generatedByKind.flatten :=
    fun name member own => named.ungenerated name member (Box.mem_generatedByKind.mp own)
  refine ⟨listed, ?_, ?_⟩
  · intro part present command own label labelled
    obtain ⟨party, input, value, inputNamed, inside, rfl⟩ := made.exists_of_label
      (outputPart_perm box reduced normalised) (modules ▸ present) own labelled
    exact ⟨input, List.mem_of_getElem? inputNamed, Box.mem_labels.mpr ⟨value, inside, rfl⟩⟩
  · have inputsOnce : box.inputs.Nodup := (List.nodup_append.mp named.once).1
    rw [listed.nodup_iff, ← Box.nodup_generatedByKind_iff inputsOnce]
    exact ⟨fun distinct => distinct.of_append_right, fun distinct =>
      named.once.append distinct apart⟩

end

/-- The names of the model of the correlated box are all different. -/
theorem correlated_identifiers_distinct :
    ∃ model, Disclosure.model (Box.correlated 0 0.5 : Box Float) = .ok model
      ∧ model.identifiers.Nodup := by
  have passed : Validity.checkVariableNaming (Box.correlated 0 0.5 : Box Float) = .ok () :=
    rfl
  obtain ⟨model, generated⟩ :
      ∃ model, Disclosure.model (Box.correlated 0 0.5 : Box Float) = .ok model :=
    Attempt.exists_eq_ok (by decide +kernel)
  refine ⟨model, generated, (identifiers_distinct_iff passed generated).2.2.mpr ?_⟩
  exact { fromCopies := by decide, fromLabels := by decide }

/-- A box of two parties with one question and one answer each. The copy of the first input
has the name of the module of the second. -/
def clashingBox : Box Float where
  inputs := ["INPUT_z", "z_seen"]
  outputs := ["a", "b"]
  inputRange := 1
  outputRange := 1
  matrix := [[1]]

/-- The clashing box is valid and has a model, in which a name is used twice. -/
theorem clashingBox_identifiers :
    Validity.validate clashingBox Validity.defaultTolerance = .ok ()
      ∧ Validity.checkVariableNaming clashingBox = .ok ()
      ∧ ∃ model, Disclosure.model clashingBox = .ok model ∧ ¬ model.identifiers.Nodup := by
  have valid : Validity.validate clashingBox Validity.defaultTolerance = .ok () :=
    Attempt.eq_ok_of_toOption (by decide +kernel)
  obtain ⟨model, generated⟩ : ∃ model, Disclosure.model clashingBox = .ok model :=
    Attempt.exists_eq_ok (by decide +kernel)
  obtain ⟨-, reduced, normalised, made, modules⟩ := modules_of_model generated
  refine ⟨valid, rfl, model, generated, ?_⟩
  rw [(identifiers_perm made modules).nodup_iff]
  decide

end Disclosure

end Nonlocal
