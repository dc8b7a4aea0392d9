import Nonlocal.Proofs.Disclosure.Identifiers

/-!
# Generated models are well-formed

The parts of a model refer to one another by names. A reference resolves if exactly one
declaration of the whole model has the name, and if the value that goes with it lies in
the declared domain. In a generated model every reference resolves: whatever a guard asks
of a variable or a branch assigns to it is one of the values that the variable of that
slot may take. The names are kept apart by the naming check, and the values fit their
domains because a box that can be stored has few values.

A label couples exactly two commands, one that hands a value over and one that records it.
-/

namespace Nonlocal

variable {α : Type}

/-- The variables of a model, module by module. -/
def Model.declarations (model : Model α) : List Declaration :=
  model.modules.flatMap Module.declarations

/-- The commands on a label, each with its module. -/
def Model.onLabel (model : Model α) (label : String) : List (Module α × Command α) :=
  model.modules.flatMap fun part =>
    (part.commands.filter fun command => command.label == some label).map (part, ·)

/-- Exactly one declaration has the name of a binding, and the value of the binding lies in
its domain. -/
def Binding.Resolves (declarations : List Declaration) (binding : Binding) : Prop :=
  ∃ declaration, declarations.filter (·.name == binding.name) = [declaration]
    ∧ declaration.domain.holds binding.value = true

/-- A command of a module with its own declarations, in a model with more of them. -/
structure Command.WellFormed (declarations own : List Declaration) (command : Command α) :
    Prop where
  /-- A guard asks of declared variables what they may hold. -/
  guardResolves : ∀ equation ∈ command.guard, equation.Resolves declarations
  /-- No guard asks twice of one variable. -/
  guardOnce : (command.guard.map Binding.name).Nodup
  /-- Branches give declared variables what they may hold. -/
  updateResolves : ∀ branch ∈ command.branches, ∀ update ∈ branch.updates,
    update.Resolves declarations
  /-- The variables that change are those of the command's module. -/
  updateOwn : ∀ branch ∈ command.branches, ∀ update ∈ branch.updates,
    update.name ∈ own.map Declaration.name
  /-- No branch gives one variable two values. -/
  updateOnce : ∀ branch ∈ command.branches, (branch.updates.map Binding.name).Nodup

/-- Exactly two commands have a label: one of the module of an input, which hands a value
over, and one of the output module, which records it. Both ask for the same value of the
input. -/
def Model.Couples (model : Model α) (label : String) : Prop :=
  ∃ input value, ∃ giver taker : Module α, ∃ giving taking : Command α,
    model.onLabel label = [(giver, giving), (taker, taking)]
      ∧ giver.name = Identifier.inputModule input ∧ taker.name = Identifier.outputModule
      ∧ giving.key.family = .consume ∧ taking.key.family = .inputSync
      ∧ ⟨input, value⟩ ∈ giving.guard ∧ ⟨input, value⟩ ∈ taking.guard

/-- A model in which all references resolve. -/
structure Model.WellFormed (model : Model α) : Prop where
  initial : ∀ declaration ∈ model.declarations,
    declaration.domain.holds declaration.init = true
  commands : ∀ part ∈ model.modules, ∀ command ∈ part.commands,
    command.WellFormed model.declarations part.declarations
  labels : ∀ part ∈ model.modules, ∀ command ∈ part.commands, ∀ label,
    command.label = some label → model.Couples label

/-- A name that is declared once, with a value in the domain, resolves. -/
theorem Binding.resolves_of_mem {declarations : List Declaration}
    (distinct : (declarations.map Declaration.name).Nodup) (declaration : Declaration)
    (member : declaration ∈ declarations) {value : Value}
    (holds : declaration.domain.holds value = true) :
    Resolves declarations ⟨declaration.name, value⟩ := by
  refine ⟨declaration, ?_, holds⟩
  induction declarations with
  | nil => simp at member
  | cons first rest inductionHypothesis =>
    obtain ⟨fresh, restDistinct⟩ := List.nodup_cons.mp distinct
    rcases List.mem_cons.mp member with rfl | later
    · rw [List.filter_cons_of_pos (by simp), List.filter_eq_nil_iff.mpr]
      intro other otherMember sameName
      exact fresh (List.mem_map.mpr ⟨other, otherMember, by simpa using sameName⟩)
    · rw [List.filter_cons_of_neg, inductionHypothesis restDistinct later]
      intro sameName
      have same : first.name = declaration.name := by simpa using sameName
      exact fresh (List.mem_map.mpr ⟨declaration, later, same.symm⟩)

/-- Elements of which nothing is made may be left out. -/
theorem flatMap_filter {β γ : Type} {elements : List β} {made : β → List γ} (kept : β → Bool)
    (nothing : ∀ element ∈ elements, kept element = false → made element = []) :
    elements.flatMap made = (elements.filter kept).flatMap made := by
  induction elements with
  | nil => rfl
  | cons element rest inductionHypothesis =>
    obtain ⟨first, later⟩ := List.forall_mem_cons.mp nothing
    rw [List.flatMap_cons, inductionHypothesis later, List.filter_cons]
    cases isKept : kept element with
    | true => rw [if_pos rfl, List.flatMap_cons]
    | false => rw [if_neg (by simp), first isKept, List.nil_append]

/-- Only the modules that move on a label have commands on it. -/
theorem Model.onLabel_eq (model : Model α) (label : String) :
    model.onLabel label = (model.listeners label).flatMap fun part =>
      (part.commands.filter fun command => command.label == some label).map (part, ·) := by
  apply flatMap_filter
  intro part _ silent
  rw [List.map_eq_nil_iff, List.filter_eq_nil_iff]
  intro command member labelled
  have hears : part.hears label = true := List.any_eq_true.mpr ⟨command, member, labelled⟩
  rw [silent] at hears
  cases hears

namespace Disclosure

variable {box : Box α}

/-- A variable of the model of a box with a value that it may take. -/
inductive Sensible (box : Box α) : Binding → Prop
  | flag (up : Bool) : Sensible box ⟨Identifier.readyFlag, .bool up⟩
  | input {name : String} (member : name ∈ box.inputs) (held : Option Nat)
      (inside : ∀ value ∈ held, value < box.inputRange) : Sensible box ⟨name, holding held⟩
  | output {name : String} (member : name ∈ box.outputs) (held : Option Nat)
      (inside : ∀ value ∈ held, value < box.outputRange) : Sensible box ⟨name, holding held⟩
  | copy {name : String} (member : name ∈ box.inputs) (held : Option Nat)
      (inside : ∀ value ∈ held, value < box.inputRange) :
      Sensible box ⟨Identifier.seenVariable name, holding held⟩

/-- What a variable holds, a count below its range or nothing, lies in its domain. -/
theorem holds_holding {range : Nat} (words : range ≤ Word.greatestSigned) (name : String)
    (held : Option Nat) (inside : ∀ value ∈ held, value < range) :
    (rangeVariable name range).domain.holds (holding held) = true := by
  have high : ((min range Word.greatestSigned : Nat) : Int) = range := by
    rw [Nat.min_eq_left words]
  cases held with
  | none =>
    simp only [rangeVariable, holding, unset, Domain.holds, Int.ofNat_eq_natCast, high,
      Bool.and_eq_true, decide_eq_true_eq]
    omega
  | some value =>
    have below := inside value rfl
    have kept := intValue_of_le (below.le.trans words)
    simp only [rangeVariable, holding, kept, Domain.holds, Int.ofNat_eq_natCast, high,
      Bool.and_eq_true, decide_eq_true_eq]
    omega

/-- The variables of a model have different names. -/
theorem nodup_variables (separated : box.Separated) :
    (box.inputs ++ (Identifier.readyFlag :: box.outputs
      ++ box.inputs.map Identifier.seenVariable)).Nodup := by
  obtain ⟨inputsOnce, outputsOnce, apart⟩ := List.nodup_append.mp separated.distinct
  have notReady := separated.notReady
  have notSeen := separated.notSeen
  have copiesOnce : (box.inputs.map Identifier.seenVariable).Nodup :=
    inputsOnce.map fun _ _ => Identifier.seenVariable_injective
  simp only [List.mem_append] at notReady notSeen
  refine List.Nodup.append inputsOnce (List.Nodup.append ?_ copiesOnce ?_) ?_
  · exact List.nodup_cons.mpr ⟨fun member => notReady _ (.inr member) rfl, outputsOnce⟩
  · intro name inFront copied
    obtain ⟨input, member, rfl⟩ := List.mem_map.mp copied
    rcases List.mem_cons.mp inFront with ready | output
    · exact Identifier.seenVariable_ne_readyFlag input ready
    · exact notSeen _ (.inr output) input member rfl
  · intro name input other
    rcases List.mem_append.mp other with inFront | copied
    · rcases List.mem_cons.mp inFront with rfl | output
      · exact notReady _ (.inl input) rfl
      · exact apart name input name output rfl
    · obtain ⟨copy, member, rfl⟩ := List.mem_map.mp copied
      exact notSeen _ (.inl input) copy member rfl

/-- A guard that asks of the flag, of some copies and of all outputs asks of each once. -/
theorem nodup_guard (separated : box.Separated) {copies : List String}
    (some : copies.Sublist (box.inputs.map Identifier.seenVariable)) :
    (Identifier.readyFlag :: copies ++ box.outputs).Nodup := by
  have distinct := (List.nodup_append.mp (nodup_variables separated)).2.1
  have listed : (Identifier.readyFlag :: (copies ++ box.outputs)).Perm
      (Identifier.readyFlag :: (box.outputs ++ copies)) := List.perm_append_comm.cons _
  rw [List.cons_append, listed.nodup_iff]
  exact distinct.sublist (((List.Sublist.refl box.outputs).append some).cons_cons _)

/-- A command of a module asks of variables and gives them what they may hold, each once, and
changes only the variables of the module. -/
structure Tidy (box : Box α) (own : List Declaration) (command : Command α) : Prop where
  guard : ∀ equation ∈ command.guard, Sensible box equation
  guardOnce : (command.guard.map Binding.name).Nodup
  updates : ∀ branch ∈ command.branches, ∀ update ∈ branch.updates,
    Sensible box update ∧ update.name ∈ own.map Declaration.name
  updatesOnce : ∀ branch ∈ command.branches, (branch.updates.map Binding.name).Nodup

/-- The commands of an input module are tidy. -/
theorem tidy_inputPart {input : String} {party : Nat} (named : box.inputs[party]? = some input)
    {command : Command α} (own : command ∈ (inputPart box input party).commands) :
    Tidy box (inputPart box input party).declarations command := by
  have member := List.mem_of_getElem? named
  have declared : input ∈ (inputPart box input party).declarations.map Declaration.name :=
    List.mem_singleton.mpr rfl
  have emptied : Sensible box ⟨input, unset⟩ := .input member none (by simp)
  have filled {value : Nat} (inside : value < box.inputRange) :
      Sensible box ⟨input, intValue value⟩ := .input member (some value) (by simpa)
  rcases (mem_inputPart command).mp own with rfl | ⟨value, inside, rfl⟩
  · refine ⟨by simpa [coinToss] using emptied, by simp [coinToss], ?_, ?_⟩
    · intro branch drawn update updated
      obtain ⟨value, inside, rfl⟩ := List.mem_map.mp drawn
      obtain rfl := List.mem_singleton.mp updated
      exact ⟨filled (List.mem_range.mp inside), declared⟩
    · intro branch drawn
      obtain ⟨value, -, rfl⟩ := List.mem_map.mp drawn
      exact List.nodup_singleton _
  · refine ⟨by simpa [consume] using filled inside, by simp [consume], ?_, ?_⟩
    · intro branch taken update updated
      obtain rfl := List.mem_singleton.mp taken
      obtain rfl := List.mem_singleton.mp updated
      exact ⟨emptied, declared⟩
    · intro branch taken
      obtain rfl := List.mem_singleton.mp taken
      exact List.nodup_singleton _

/-- The output module declares the flag. -/
theorem flag_declared :
    Identifier.readyFlag ∈ (outputVariables box).map Declaration.name := by
  simp [outputVariables]

/-- The commands that copy a value are tidy. -/
theorem tidy_inputSync (separated : box.Separated) {input : String} {party value : Nat}
    (named : box.inputs[party]? = some input) (inside : value < box.inputRange) :
    Tidy box (outputVariables box) (inputSync party input value : Command α) := by
  have member := List.mem_of_getElem? named
  have declared : Identifier.seenVariable input
      ∈ (outputVariables box).map Declaration.name := by
    simp only [outputVariables, List.map_append, List.mem_append, List.map_map]
    exact Or.inr (List.mem_map_of_mem member)
  have notReady : input ≠ Identifier.readyFlag :=
    separated.notReady input (List.mem_append_left _ member)
  have notSeen : input ≠ Identifier.seenVariable input :=
    separated.notSeen input (List.mem_append_left _ member) input member
  have copyNotReady := Identifier.seenVariable_ne_readyFlag input
  have guarded : Sensible box ⟨input, intValue value⟩ :=
    .input member (some value) (by simpa)
  have fresh : Sensible box ⟨Identifier.seenVariable input, unset⟩ :=
    .copy member none (by simp)
  have copied : Sensible box ⟨Identifier.seenVariable input, intValue value⟩ :=
    .copy member (some value) (by simpa)
  refine ⟨?_, ?_, ?_, ?_⟩
  · simpa [inputSync] using ⟨.flag true, guarded, fresh⟩
  · simp [inputSync, notReady.symm, copyNotReady.symm, notSeen]
  · intro branch taken update updated
    obtain rfl := List.mem_singleton.mp taken
    rcases List.mem_cons.mp updated with rfl | updated
    · exact ⟨.flag false, flag_declared⟩
    · obtain rfl := List.mem_singleton.mp updated
      exact ⟨copied, declared⟩
  · intro branch taken
    obtain rfl := List.mem_singleton.mp taken
    simp [certainBranch, copyNotReady.symm]

/-- A branch that discloses a value of the range is tidy. -/
theorem tidy_disclosing (separated : box.Separated) {output : String}
    (member : output ∈ box.outputs) {value : Nat} (inside : value < box.outputRange) (weight : α) :
    (∀ update ∈ (disclosing output value weight).updates, Sensible box update
        ∧ update.name ∈ (outputVariables box).map Declaration.name)
      ∧ ((disclosing output value weight).updates.map Binding.name).Nodup := by
  have notReady : output ≠ Identifier.readyFlag :=
    separated.notReady output (List.mem_append_right _ member)
  have declared : output ∈ (outputVariables box).map Declaration.name := by
    simp [outputVariables, rangeVariable, member]
  refine ⟨?_, by simp [disclosing, notReady]⟩
  intro update updated
  rcases List.mem_cons.mp updated with rfl | updated
  · exact ⟨.output member (some value) (by simpa), declared⟩
  · obtain rfl := List.mem_singleton.mp updated
    exact ⟨.flag true, flag_declared⟩

/-- The guard of a listed history asks of the flag, of copies in the order of the inputs, and
of all outputs in their order. -/
theorem guard_names {ε : Type} {history : History} (listed : history.Listed box)
    {guard : List Binding} (guarded : (history.guard box : Attempt ε (List Binding)) = .ok guard) :
    ∃ copies : List String, copies.Sublist (box.inputs.map Identifier.seenVariable)
      ∧ guard.map Binding.name = Identifier.readyFlag :: copies ++ box.outputs := by
  obtain ⟨seen, seenGuarded, rest⟩ := (Attempt.bind_eq_ok_iff _ _ _).mp guarded
  obtain ⟨outputs, outputsGuarded, same⟩ := (Attempt.bind_eq_ok_iff _ _ _).mp rest
  obtain rfl := Except.ok.inj same
  refine ⟨seen.map Binding.name, ?_, ?_⟩
  · have copies := Attempt.sublist_of_filterMapM _ _ _ seenGuarded
      (Identifier.seenVariable ∘ Prod.fst) Binding.name ?_
    · rwa [← List.map_map, List.zipIdx_map_fst] at copies
    · rintro ⟨input, party⟩ equation made
      have held := (History.seenBinding_eq_ok listed party input).symm.trans made
      obtain ⟨value, -, rfl⟩ := Option.map_eq_some_iff.mp (Except.ok.inj held)
      rfl
  · have names := Attempt.map_of_mapM _ _ _ outputsGuarded Prod.fst Binding.name ?_
    · rw [List.zipIdx_map_fst] at names
      simp [names]
    · rintro ⟨output, party⟩ equation made
      obtain ⟨value, -, same⟩ := (Attempt.bind_eq_ok_iff _ _ _).mp made
      rw [← Except.ok.inj same]

/-- The guard of a listed history asks for values that the variables may take. -/
theorem sensible_guard {ε : Type} {history : History} (listed : history.Listed box)
    {guard : List Binding} (guarded : (history.guard box : Attempt ε (List Binding)) = .ok guard)
    {equation : Binding} (asks : equation ∈ guard) : Sensible box equation := by
  obtain ⟨seen, seenGuarded, rest⟩ := (Attempt.bind_eq_ok_iff _ _ _).mp guarded
  obtain ⟨outputs, outputsGuarded, same⟩ := (Attempt.bind_eq_ok_iff _ _ _).mp rest
  obtain rfl := Except.ok.inj same
  rcases List.mem_append.mp asks with inFront | ofOutput
  · rcases List.mem_cons.mp inFront with rfl | ofCopy
    · exact .flag false
    · obtain ⟨party, input, named, value, known, rfl⟩ :=
        (History.mem_seenGuard listed seenGuarded equation).mp ofCopy
      refine .copy (List.mem_of_getElem? named) (some value) ?_
      simpa using listed.seen?_lt known
  · obtain ⟨party, output, named, rfl⟩ :=
      (History.mem_outputGuard listed outputsGuarded equation).mp ofOutput
    exact .output (List.mem_of_getElem? named) _ fun value known => listed.known?_lt known

/-- The values of a range that are one of them are that one. -/
theorem filter_range_beq {range value : Nat} (inside : value < range) :
    (List.range range).filter (· == value) = [value] := by
  rw [List.filter_beq, List.nodup_range.count, if_pos (List.mem_range.mpr inside)]
  rfl

/-- Of the commands for the values of an input, one is on the label of a value. -/
theorem filter_labelled {made : Nat → Command α} {input : String}
    (labelled : ∀ value, (made value).label = some (Identifier.syncLabel input value))
    {range value : Nat} (inside : value < range) :
    ((List.range range).map made).filter
      (·.label == some (Identifier.syncLabel input value)) = [made value] := by
  have same (other : Nat) : ((made other).label == some (Identifier.syncLabel input value))
      = (other == value) := by
    rw [labelled, Bool.eq_iff_iff, beq_iff_eq, beq_iff_eq]
    constructor
    · intro sameLabel
      exact (Identifier.syncLabel_injective (Option.some.inj sameLabel)).2
    · rintro rfl
      rfl
  rw [List.filter_map, Function.comp_def, List.filter_congr fun other _ => same other,
    filter_range_beq inside, List.map_singleton]

/-- On the label of a value an input module has the command that hands the value over. -/
theorem filter_inputPart {input : String} (party : Nat) {value : Nat}
    (inside : value < box.inputRange) :
    (inputPart box input party).commands.filter
      (·.label == some (Identifier.syncLabel input value)) = [consume party input value] := by
  rw [inputPart, List.filter_cons_of_neg (by simp [coinToss])]
  exact filter_labelled (fun _ => rfl) inside

section

variable [Zero α] [Add α] [Div α] [BEq α] [Scalar α] [LT α] [DecidableLT α]

/-- The commands for first answers are tidy. -/
theorem tidy_reduced (separated : box.Separated) {question : Question}
    (listed : question ∈ questions box) {command : Command α}
    (succeeded : reducedCommand? box question.party question.input = .ok (some command)) :
    Tidy box (outputVariables box) command := by
  obtain ⟨present, asked⟩ := (mem_questions question).mp listed
  obtain ⟨input, _, named, _, _, spec⟩ := reducedCommand?_spec succeeded
  obtain ⟨serves, guarded, -⟩ := spec command rfl
  obtain ⟨output, values, outputNamed, weighted, -, branches⟩ := serves.branches
  have member := List.mem_of_getElem? named
  have disclosed : ∀ branch ∈ command.branches, ∃ value < box.outputRange, ∃ weight,
      branch = disclosing output value weight := by
    intro branch taken
    rw [branches] at taken
    obtain ⟨⟨value, weight⟩, possible, rfl⟩ := List.mem_map.mp taken
    exact ⟨value, ((exists_discloses_iff weighted value).mp ⟨weight, possible⟩).1, weight, rfl⟩
  refine ⟨?_, ?_, ?_, ?_⟩
  · intro equation asks
    rw [guarded] at asks
    rcases List.mem_cons.mp asks with rfl | asks
    · exact .flag false
    rcases List.mem_cons.mp asks with rfl | asks
    · exact .copy member (some question.input) (by simpa)
    · obtain ⟨name, outputMember, rfl⟩ := List.mem_map.mp asks
      exact .output outputMember none (by simp)
  · have names : command.guard.map Binding.name
        = Identifier.readyFlag :: [Identifier.seenVariable input] ++ box.outputs := by
      simp [guarded, Function.comp_def]
    rw [names]
    exact nodup_guard separated (List.singleton_sublist.mpr (List.mem_map_of_mem member))
  · intro branch taken
    obtain ⟨value, inside, weight, rfl⟩ := disclosed branch taken
    exact (tidy_disclosing separated (List.mem_of_getElem? outputNamed) inside weight).1
  · intro branch taken
    obtain ⟨value, inside, weight, rfl⟩ := disclosed branch taken
    exact (tidy_disclosing separated (List.mem_of_getElem? outputNamed) inside weight).2

omit [Scalar α] in
/-- The branches of a history disclose values of the range. -/
theorem disclosing_of_branches {history : History} {branches : List (Branch α)}
    (branched : history.branches box = .ok branches) :
    ∃ output ∈ box.outputs, ∀ branch ∈ branches, ∃ value < box.outputRange, ∃ weight,
      branch = disclosing output value weight := by
  obtain ⟨_, -, rest⟩ := (Attempt.bind_eq_ok_iff _ _ _).mp branched
  obtain ⟨output, outputNamed, rest⟩ := (Attempt.bind_eq_ok_iff _ _ _).mp rest
  obtain ⟨values, valued, same⟩ := (Attempt.bind_eq_ok_iff _ _ _).mp rest
  obtain rfl := Except.ok.inj same
  rw [Attempt.get_eq_ok_iff] at outputNamed
  refine ⟨output, List.mem_of_getElem? outputNamed, fun branch taken => ?_⟩
  obtain ⟨⟨value, weight⟩, possible, rfl⟩ := List.mem_map.mp taken
  exact ⟨value, ((mem_positiveValues valued value weight).mp possible).1, weight, rfl⟩

omit [Scalar α] in
/-- The commands for later answers are tidy. -/
theorem tidy_normalised (separated : box.Separated) {history : History}
    (listed : history.Listed box) {command : Command α}
    (succeeded : history.command? box = .ok (some command)) :
    Tidy box (outputVariables box) command := by
  obtain ⟨-, -, guarded, branched, -⟩ := command?_eq_some succeeded
  obtain ⟨output, member, disclosed⟩ := disclosing_of_branches branched
  obtain ⟨copies, inOrder, names⟩ := guard_names listed guarded
  refine ⟨fun equation => sensible_guard listed guarded, ?_, ?_, ?_⟩
  · rw [names]
    exact nodup_guard separated inOrder
  · intro branch taken
    obtain ⟨value, inside, weight, rfl⟩ := disclosed branch taken
    exact (tidy_disclosing separated member inside weight).1
  · intro branch taken
    obtain ⟨value, inside, weight, rfl⟩ := disclosed branch taken
    exact (tidy_disclosing separated member inside weight).2

/-- Every command of the modules that are made is tidy. -/
theorem Disclosing.tidy {reduced normalised : List (Command α)}
    (made : Disclosing box reduced normalised) (separated : box.Separated)
    {output part : Module α} (declarations : output.declarations = outputVariables box)
    (commands : output.commands.Perm (inputSyncCommands box ++ (reduced ++ normalised)))
    (present : part ∈ inputParts box ++ [output]) {command : Command α}
    (own : command ∈ part.commands) : Tidy box part.declarations command := by
  rw [List.mem_append, mem_inputParts, List.mem_singleton] at present
  rcases present with ⟨party, input, named, rfl⟩ | rfl
  · exact tidy_inputPart named own
  rw [declarations]
  rw [commands.mem_iff, List.mem_append, mem_inputSyncCommands, List.mem_append] at own
  rcases own with ⟨party, input, value, named, inside, rfl⟩ | inReduced | inNormalised
  · exact tidy_inputSync separated named inside
  · obtain ⟨question, listed, succeeded⟩ :=
      (Attempt.mem_filterMapM _ _ _ made.first command).mp inReduced
    exact tidy_reduced separated listed succeeded
  · obtain ⟨masks, -, exactly, commands⟩ := made.later
    obtain ⟨history, member, succeeded⟩ :=
      (Attempt.mem_filterMapM _ _ _ commands command).mp inNormalised
    exact tidy_normalised separated ((exactly history).mp member) succeeded

namespace Setting

variable {model : Model α} {output : Module α} {reduced normalised : List (Command α)}
  (setting : Setting box model output reduced normalised)

include setting

/-- Every command of the model is tidy. -/
theorem tidy {part : Module α} (present : part ∈ model.modules) {command : Command α}
    (own : command ∈ part.commands) : Tidy box part.declarations command :=
  setting.made.tidy setting.separated setting.declarations setting.commands
    (setting.modules ▸ present) own

/-- The model declares its inputs, and the variables of the output module. -/
theorem declarations_eq :
    model.declarations
      = box.inputs.map (rangeVariable · box.inputRange) ++ outputVariables box := by
  have ofInputs : (inputParts box).map Module.declarations
      = box.inputs.map fun input => [rangeVariable input box.inputRange] :=
    map_inputParts fun _ _ => rfl
  rw [Model.declarations, setting.modules, List.flatMap_append, List.flatMap_def, ofInputs,
    List.flatMap_singleton, setting.declarations, ← List.flatMap_def, List.map_eq_flatMap]

/-- No name is declared twice. -/
theorem nodup_declarations : (model.declarations.map Declaration.name).Nodup := by
  have names : model.declarations.map Declaration.name
      = box.inputs ++ (Identifier.readyFlag :: box.outputs
        ++ box.inputs.map Identifier.seenVariable) := by
    simp [setting.declarations_eq, outputVariables, rangeVariable, Function.comp_def]
  rw [names]
  exact nodup_variables setting.separated

/-- Variables with values that they may take resolve. -/
theorem resolves {binding : Binding} (sensible : Sensible box binding) :
    binding.Resolves model.declarations := by
  have distinct := setting.nodup_declarations
  have inputWords := setting.shaped.inputRange_le setting.storable
  have outputWords := setting.shaped.outputRange_le setting.storable
  have declared := setting.declarations_eq
  cases sensible with
  | flag up =>
    refine Binding.resolves_of_mem distinct ⟨Identifier.readyFlag, .bool, .bool true⟩ ?_ rfl
    rw [declared]
    exact List.mem_append_right _ (List.mem_append_left _ List.mem_cons_self)
  | @input name member held inside =>
    refine Binding.resolves_of_mem distinct (rangeVariable name box.inputRange) ?_
      (holds_holding inputWords name held inside)
    rw [declared]
    exact List.mem_append_left _ (List.mem_map.mpr ⟨name, member, rfl⟩)
  | @output name member held inside =>
    refine Binding.resolves_of_mem distinct (rangeVariable name box.outputRange) ?_
      (holds_holding outputWords name held inside)
    rw [declared]
    refine List.mem_append_right _ (List.mem_append_left _ (List.mem_cons_of_mem _ ?_))
    exact List.mem_map.mpr ⟨name, member, rfl⟩
  | @copy name member held inside =>
    refine Binding.resolves_of_mem distinct
      (rangeVariable (Identifier.seenVariable name) box.inputRange) ?_
      (holds_holding inputWords _ held inside)
    rw [declared]
    exact List.mem_append_right _
      (List.mem_append_right _ (List.mem_map.mpr ⟨name, member, rfl⟩))

/-- Initial values lie in their domains. -/
theorem holds_init {declaration : Declaration} (member : declaration ∈ model.declarations) :
    declaration.domain.holds declaration.init = true := by
  have inputWords := setting.shaped.inputRange_le setting.storable
  have outputWords := setting.shaped.outputRange_le setting.storable
  rw [setting.declarations_eq, outputVariables] at member
  rcases List.mem_append.mp member with ofInput | inOutput
  · obtain ⟨name, -, rfl⟩ := List.mem_map.mp ofInput
    exact holds_holding inputWords name none (by simp)
  rcases List.mem_append.mp inOutput with inFront | ofCopy
  · rcases List.mem_cons.mp inFront with rfl | ofOutput
    · rfl
    · obtain ⟨name, -, rfl⟩ := List.mem_map.mp ofOutput
      exact holds_holding outputWords name none (by simp)
  · obtain ⟨name, -, rfl⟩ := List.mem_map.mp ofCopy
    exact holds_holding inputWords _ none (by simp)

/-- On the label of a value the output module has the command that copies the value. -/
theorem filter_output {input : String} {party value : Nat}
    (named : box.inputs[party]? = some input) (inside : value < box.inputRange) :
    output.commands.filter (·.label == some (Identifier.syncLabel input value))
      = [inputSync party input value] := by
  have silent : (reduced ++ normalised).filter
      (·.label == some (Identifier.syncLabel input value)) = [] := by
    rw [List.filter_eq_nil_iff]
    intro command member
    simp [(setting.made.label_family member).1]
  have copying : (inputSyncCommands box : List (Command α)).filter
      (·.label == some (Identifier.syncLabel input value)) = [inputSync party input value] := by
    rw [inputSyncCommands, List.filter_flatMap, flatMap_filter fun entry => entry.1 == input,
      setting.filter_input named, List.flatMap_singleton]
    · exact filter_labelled (fun _ => rfl) inside
    · intro entry _ other
      rw [List.filter_eq_nil_iff]
      intro command made labelled
      obtain ⟨copied, -, rfl⟩ := List.mem_map.mp made
      have sameLabel := Option.some.inj (beq_iff_eq.mp labelled)
      simp [(Identifier.syncLabel_injective sameLabel).1] at other
  have listed := setting.commands.filter (·.label == some (Identifier.syncLabel input value))
  rw [List.filter_append, copying, silent, List.append_nil] at listed
  exact List.perm_singleton.mp listed

/-- The label of a value couples the command that hands it over with the one that copies
it. -/
theorem couples {input : String} {party value : Nat} (named : box.inputs[party]? = some input)
    (inside : value < box.inputRange) (outputName : output.name = Identifier.outputModule) :
    model.Couples (Identifier.syncLabel input value) := by
  refine ⟨input, intValue value, inputPart box input party, output, consume party input value,
    inputSync party input value, ?_, rfl, outputName, rfl, rfl, ?_, ?_⟩
  · rw [Model.onLabel_eq, setting.listeners_syncLabel named inside, List.flatMap_cons,
      List.flatMap_singleton, filter_inputPart party inside, setting.filter_output named inside]
    rfl
  · exact List.mem_singleton.mpr rfl
  · exact List.mem_cons_of_mem _ List.mem_cons_self

end Setting

/-- The model of a valid box is well-formed. -/
theorem model_wellFormed [One α] [Sub α] [LE α] [DecidableLE α] {tolerance : α} {model : Model α}
    (storable : box.Storable) (valid : Validity.validate box tolerance = .ok ())
    (generated : Disclosure.model box = .ok model) : model.WellFormed := by
  obtain ⟨shaped, reduced, normalised, made, modules⟩ := modules_of_model generated
  have setting : Setting box model (outputPart box reduced normalised) reduced normalised := {
    shaped, storable, made, modules
    separated := Box.separated_of_validate valid
    declarations := rfl
    commands := outputPart_perm box reduced normalised }
  refine ⟨fun _ => setting.holds_init, ?_, ?_⟩
  · intro part present command own
    have tidy := setting.tidy present own
    exact {
      guardResolves := fun equation asks => setting.resolves (tidy.guard equation asks)
      guardOnce := tidy.guardOnce
      updateResolves := fun branch taken update updated =>
        setting.resolves (tidy.updates branch taken update updated).1
      updateOwn := fun branch taken update updated => (tidy.updates branch taken update updated).2
      updateOnce := tidy.updatesOnce }
  · intro part present command own label labelled
    obtain ⟨party, input, value, named, inside, rfl⟩ := made.exists_of_label setting.commands
      (modules ▸ present) own labelled
    exact setting.couples named inside rfl

/-- The model of the correlated box is well-formed. -/
theorem correlated_wellFormed :
    ∃ model, Disclosure.model (Box.correlated 0 0.5 : Box Float) = .ok model
      ∧ model.WellFormed := by
  have valid : Validity.validate (Box.correlated 0 0.5 : Box Float) Validity.defaultTolerance
      = .ok () := Attempt.eq_ok_of_toOption (by decide +kernel)
  obtain ⟨model, generated⟩ :
      ∃ model, Disclosure.model (Box.correlated 0 0.5 : Box Float) = .ok model :=
    Attempt.exists_eq_ok (by decide +kernel)
  exact ⟨model, generated, model_wellFormed (by decide) valid generated⟩

end

end Disclosure

end Nonlocal
