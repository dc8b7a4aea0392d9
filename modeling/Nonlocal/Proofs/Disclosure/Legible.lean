import Nonlocal.Proofs.Disclosure.WellFormed
import Nonlocal.Proofs.Model.Reading
import Nonlocal.Proofs.Validity.Outcome

/-!
# The text of a generated model determines the model

All names of a generated model come from the names of the box, which validation has found
to be identifiers. What is put around them has only letters, digits and underscores too,
so the names are legible, and so the text of the model says what the model is. Two boxes
can have one text only if their models are written alike. This holds of the numbers as
they are: that different probabilities have different texts is not assumed.
-/

namespace Nonlocal

namespace Identifier

/-- Identifiers are legible. -/
theorem WellFormed.legible {name : String} (wellFormed : WellFormed name) : Legible name := by
  obtain ⟨first, rest, whole, starts, parts⟩ := wellFormed
  refine ⟨fun empty => by simp [empty] at whole, ?_⟩
  rw [whole, List.forall_mem_cons]
  constructor
  · rcases starts with letter | rfl
    · simp [isPart, Char.isAlphanum, letter]
    · decide
  · intro char member
    simpa [isPart] using parts char member

/-- The ready flag is legible. -/
theorem legible_readyFlag : Legible readyFlag := ⟨by decide, List.all_eq_true.mp (by decide)⟩

/-- The name of the output module is legible. -/
theorem legible_outputModule : Legible outputModule := ⟨by decide, List.all_eq_true.mp (by decide)⟩

variable {input : String} (legible : Legible input)

include legible

/-- A legible name stays legible with legible characters around it. -/
theorem legible_around {name : String} (before after : List Char)
    (whole : name.toList = before ++ input.toList ++ after)
    (parts : ∀ char ∈ before ++ after, isPart char = true) : Legible name := by
  obtain ⟨first, rest, start, -⟩ := legible.starts
  refine ⟨fun empty => by simp [empty, start] at whole, ?_⟩
  intro char member
  simp only [whole, List.mem_append] at member parts
  rcases member with (inFront | own) | behind
  · exact parts char (.inl inFront)
  · exact legible.parts char own
  · exact parts char (.inr behind)

/-- The module of an input has a legible name. -/
theorem legible_inputModule : Legible (inputModule input) :=
  legible_around legible "INPUT_".toList [] (by simp [inputModule])
    (List.all_eq_true.mp (by decide))

/-- The copy of an input has a legible name. -/
theorem legible_seenVariable : Legible (seenVariable input) :=
  legible_around legible [] "_seen".toList (by simp [seenVariable])
    (List.all_eq_true.mp (by decide))

/-- The labels of an input are legible. -/
theorem legible_syncLabel (value : Nat) : Legible (syncLabel input value) := by
  refine legible_around legible [] ('_' :: Nat.toDigits 10 value)
    (by simp [toList_syncLabel]) ?_
  rw [List.nil_append, List.forall_mem_cons]
  refine ⟨by decide, fun char member => ?_⟩
  simp [isPart, Char.isAlphanum, Decimal.isDigit_toDigits value char member]

end Identifier

namespace Disclosure

variable {α : Type} {box : Box α}

/-- The names of a valid box are legible. -/
theorem legible_of_validate [Zero α] [One α] [Add α] [Sub α] [LT α] [DecidableLT α] [LE α]
    [DecidableLE α] [Scalar α] {tolerance : α} (valid : Validity.validate box tolerance = .ok ()) :
    ∀ name ∈ box.declared, Legible name := by
  have passed : Validity.runCheck .variableNaming box tolerance = .ok () :=
    Validity.runCheck_of_validate valid .variableNaming
  obtain ⟨_, -, checked⟩ := (Attempt.bind_eq_ok_iff _ _ _).mp passed
  rw [Attempt.ofExcept_eq_ok_iff] at checked
  obtain ⟨_, declared, -⟩ := (Attempt.bind_eq_ok_iff _ _ _).mp checked
  intro name member
  exact ((Validity.checkDeclared_settles (List.nil_append box.declared)).demanded_of_ok
    declared name member).1.legible

variable (named : ∀ name ∈ box.declared, Legible name)

include named

/-- The variables of a model have legible names. -/
theorem Sensible.legible {binding : Binding} (sensible : Sensible box binding) :
    Legible binding.name := by
  cases sensible with
  | flag up => exact Identifier.legible_readyFlag
  | input member held inside => exact named _ (List.mem_append_left _ member)
  | output member held inside => exact named _ (List.mem_append_right _ member)
  | copy member held inside =>
    exact Identifier.legible_seenVariable (named _ (List.mem_append_left _ member))

/-- The output module declares legible names. -/
theorem legible_outputVariables :
    ∀ declaration ∈ outputVariables box, Legible declaration.name := by
  intro declaration member
  rcases List.mem_append.mp member with inFront | copy
  · rcases List.mem_cons.mp inFront with rfl | output
    · exact Identifier.legible_readyFlag
    · obtain ⟨name, declared, rfl⟩ := List.mem_map.mp output
      exact named name (List.mem_append_right _ declared)
  · obtain ⟨name, declared, rfl⟩ := List.mem_map.mp copy
    exact Identifier.legible_seenVariable (named name (List.mem_append_left _ declared))

/-- A generated model is legible if the names of its box are, and are kept apart. -/
theorem legible_model [Zero α] [Add α] [Div α] [BEq α] [Scalar α] [LT α] [DecidableLT α]
    (separated : box.Separated) {model : Model α} (generated : Disclosure.model box = .ok model) :
    model.Legible := by
  obtain ⟨-, reduced, normalised, made, modules⟩ := modules_of_model generated
  intro part present
  rw [modules] at present
  have commands := outputPart_perm box reduced normalised
  refine ⟨?_, ?_, fun command own => ⟨?_, ?_, ?_⟩⟩
  · rw [List.mem_append, mem_inputParts, List.mem_singleton] at present
    rcases present with ⟨party, input, asked, rfl⟩ | rfl
    · exact Identifier.legible_inputModule
        (named input (List.mem_append_left _ (List.mem_of_getElem? asked)))
    · exact Identifier.legible_outputModule
  · rw [List.mem_append, mem_inputParts, List.mem_singleton] at present
    rcases present with ⟨party, input, asked, rfl⟩ | rfl
    · intro declaration member
      obtain rfl := List.mem_singleton.mp member
      exact named input (List.mem_append_left _ (List.mem_of_getElem? asked))
    · exact legible_outputVariables named
  · intro label labelled
    obtain ⟨party, input, value, asked, -, rfl⟩ :=
      made.exists_of_label commands present own labelled
    exact Identifier.legible_syncLabel
      (named input (List.mem_append_left _ (List.mem_of_getElem? asked))) value
  · intro equation asks
    exact ((made.tidy separated rfl commands present own).guard equation asks).legible named
  · intro branch taken update updated
    exact ((made.tidy separated rfl commands present own).updates branch taken update
      updated).1.legible named

omit named

/-- The text of a model determines the model: if the models of two valid boxes have the same
text, they have the same modules, in the same order and with the same names, the same
variables with their domains and initial values, and the same commands in the same order,
with equal labels, guards and branches. Only keys, and the weight of a single branch that is
certain, can be different. -/
theorem text_determines_model {left right : Box Float} {tolerance tolerance' : Float}
    {first second : Model Float} (valid : Validity.validate left tolerance = .ok ())
    (valid' : Validity.validate right tolerance' = .ok ())
    (generated : Disclosure.model left = .ok first)
    (generated' : Disclosure.model right = .ok second) (same : first.text = second.text) :
    first.Alike second :=
  Model.alike_of_text_eq
    (legible_model (legible_of_validate valid) (Box.separated_of_validate valid) generated)
    (legible_model (legible_of_validate valid') (Box.separated_of_validate valid') generated') same

/-- One party with one input and two answers, half and half. -/
def fairBox : Box Float where
  inputs := ["x"]
  outputs := ["a"]
  inputRange := 1
  outputRange := 2
  matrix := [[0.5, 0.5]]

/-- The same party with answers that are alike, but add up to a little more than 1. -/
def heavyBox : Box Float where
  inputs := ["x"]
  outputs := ["a"]
  inputRange := 1
  outputRange := 2
  matrix := [[0.5000000001, 0.5000000001]]

/-- Different boxes can have one text. The weights of first answers are rescaled, so the
models of these two boxes are written alike. -/
theorem fairBox_alike_heavyBox : ∃ first second,
    Disclosure.model fairBox = .ok first ∧ Disclosure.model heavyBox = .ok second
      ∧ first.text = second.text ∧ first.Alike second := by
  obtain ⟨first, generated⟩ : ∃ model, Disclosure.model fairBox = .ok model :=
    Attempt.exists_eq_ok (by decide +kernel)
  obtain ⟨second, generated'⟩ : ∃ model, Disclosure.model heavyBox = .ok model :=
    Attempt.exists_eq_ok (by decide +kernel)
  have same : first.text = second.text := by
    have texts : (Disclosure.model fairBox).toOption.map Model.text
        = (Disclosure.model heavyBox).toOption.map Model.text := by decide +kernel
    rw [generated, generated'] at texts
    exact Option.some.inj texts
  have valid : Validity.validate fairBox Validity.defaultTolerance = .ok () := by decide +kernel
  have valid' : Validity.validate heavyBox Validity.defaultTolerance = .ok () := by
    decide +kernel
  exact ⟨first, second, generated, generated', same,
    text_determines_model valid valid' generated generated' same⟩

end Disclosure

end Nonlocal
