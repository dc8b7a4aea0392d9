import Mathlib.Data.List.Nodup
import Nonlocal.Proofs.Attempt
import Nonlocal.Validity.Check

/-!
# The variables of a model are kept apart

A model has one ready flag, and for every party an input variable, an output
variable and a copy of the consumed input. Each of them is a slot, and a slot of
an existing party has a name. The naming check makes sure that no two slots share
a name, so assigning to one variable leaves all others alone. Labels are kept
apart without any check: a count has no underscore in it.
-/

namespace Nonlocal

/-- The variables of a model, by what they hold. -/
inductive Slot where
  | ready
  | input (party : Nat)
  | output (party : Nat)
  | seen (party : Nat)
  deriving DecidableEq, Repr

/-- The name of a slot, if the box has the party. -/
def Slot.name? {α : Type} (box : Box α) : Slot → Option String
  | .ready => some Identifier.readyFlag
  | .input party => box.inputs[party]?
  | .output party => box.outputs[party]?
  | .seen party => box.inputs[party]?.map Identifier.seenVariable

namespace Identifier

/-- The copy of an input tells which input it is a copy of. -/
theorem seenVariable_injective {first second : String}
    (same : seenVariable first = seenVariable second) : first = second := by
  have texts : first.toList ++ "_seen".toList = second.toList ++ "_seen".toList := by
    simpa [seenVariable] using congrArg String.toList same
  exact String.toList_inj.mp (List.append_cancel_right texts)

/-- No copy of an input has the name of the ready flag: they end differently. -/
theorem seenVariable_ne_readyFlag (input : String) : seenVariable input ≠ readyFlag := by
  intro same
  have ends : (seenVariable input).toList.getLast? = readyFlag.toList.getLast? := by rw [same]
  simp [seenVariable, readyFlag] at ends

/-- A label is the input, an underscore and the digits of the value. -/
theorem toList_syncLabel (input : String) (value : Nat) :
    (syncLabel input value).toList = input.toList ++ '_' :: Nat.toDigits 10 value := by
  simp [syncLabel]

/-- A label tells the input and the value it belongs to. The underscore before the
value is the last one of the label. -/
theorem syncLabel_injective {first second : String} {left right : Nat}
    (same : syncLabel first left = syncLabel second right) : first = second ∧ left = right := by
  have texts : first.toList ++ '_' :: Nat.toDigits 10 left
      = second.toList ++ '_' :: Nat.toDigits 10 right := by
    rw [← toList_syncLabel, ← toList_syncLabel, same]
  have apart (value : Nat) (before : List Char) {rest : List Char}
      (inside : Nat.toDigits 10 value = before ++ '_' :: rest) : False :=
    Nat.underscore_not_in_toDigits (n := value) (by simp [inside])
  have exactly : first.toList = second.toList
      ∧ Nat.toDigits 10 left = Nat.toDigits 10 right := by
    rcases List.append_eq_append_iff.mp texts with ⟨more, longer, shared⟩ | ⟨more, longer, shared⟩
    · rcases List.cons_eq_append_iff.mp shared with ⟨rfl, rest⟩ | ⟨before, rfl, rest⟩
      · exact ⟨by simpa using longer.symm, (List.cons.inj rest).2.symm⟩
      · exact (apart left before rest).elim
    · rcases List.cons_eq_append_iff.mp shared with ⟨rfl, rest⟩ | ⟨before, rfl, rest⟩
      · exact ⟨by simpa using longer, (List.cons.inj rest).2⟩
      · exact (apart right before rest).elim
  refine ⟨String.toList_inj.mp exactly.1, ?_⟩
  rw [← Nat.ofDigitChars_ten_toDigits (n := left), exactly.2, Nat.ofDigitChars_ten_toDigits]

end Identifier

namespace Validity

variable {α : Type}

/-- Names that pass the first part of the naming check are declared once each, and
none of them was declared before. -/
theorem nodup_of_checkDeclared {declared names : List String}
    (passed : (checkDeclared declared names : Except (Violation α) Unit) = .ok ()) :
    names.Nodup ∧ ∀ name ∈ names, name ∉ declared := by
  induction names generalizing declared with
  | nil => exact ⟨List.nodup_nil, by simp⟩
  | cons name rest inductionHypothesis =>
    simp only [checkDeclared] at passed
    split at passed
    · cases passed
    · next clean =>
      obtain ⟨distinct, fresh⟩ := inductionHypothesis passed
      have new : name ∉ declared := by
        intro member
        simp only [namingIssue?] at clean
        split at clean
        · cases clean
        · split at clean
          · cases clean
          · simp [member] at clean
      refine ⟨List.nodup_cons.mpr ⟨fun again => ?_, distinct⟩, ?_⟩
      · exact fresh name again (by simp)
      · intro other member
        rcases List.mem_cons.mp member with rfl | later
        · exact new
        · exact fun before => fresh other later (by simp [before])

end Validity

/-- An element of a list without duplicates has one place. -/
theorem place_unique {β : Type} {elements : List β} (distinct : elements.Nodup)
    {left right : Nat} {element : β} (atLeft : elements[left]? = some element)
    (atRight : elements[right]? = some element) : left = right :=
  (List.getElem?_inj (List.getElem?_eq_some_iff.mp atLeft).1 distinct).mp
    (atLeft.trans atRight.symm)

namespace Box

variable {α : Type}

/-- All variables of the model of a box have different names. -/
structure Separated (box : Box α) : Prop where
  /-- The declared names are different from one another. -/
  distinct : (box.inputs ++ box.outputs).Nodup
  /-- None of them is the ready flag. -/
  notReady : ∀ name ∈ box.inputs ++ box.outputs, name ≠ Identifier.readyFlag
  /-- None of them is the copy of an input. -/
  notSeen : ∀ name ∈ box.inputs ++ box.outputs, ∀ input ∈ box.inputs,
    name ≠ Identifier.seenVariable input

/-- The naming check keeps the variables of the model apart. -/
theorem separated_of_checkVariableNaming {box : Box α}
    (passed : Validity.checkVariableNaming box = .ok ()) : box.Separated := by
  unfold Validity.checkVariableNaming at passed
  obtain ⟨_, declared, compared⟩ := (Attempt.bind_eq_ok_iff _ _ _).mp passed
  have clean : ∀ name ∈ box.inputs ++ box.outputs,
      Identifier.isGenerated name box.inputs box.inputRange = false := by
    split at compared
    · cases compared
    · next unclaimed => simpa [List.mem_append] using List.find?_eq_none.mp unclaimed
  refine ⟨(Validity.nodup_of_checkDeclared declared).1, ?_, ?_⟩
  · rintro name member rfl
    simpa [Identifier.isGenerated] using clean _ member
  · rintro name member input present rfl
    have generated : Identifier.isGenerated (Identifier.seenVariable input) box.inputs
        box.inputRange = true := by
      simp only [Identifier.isGenerated, Bool.or_eq_true, List.any_eq_true]
      exact Or.inr ⟨input, present, Or.inl (Or.inr (beq_self_eq_true _))⟩
    rw [clean _ member] at generated
    cases generated

/-- A valid box keeps the variables of its model apart. -/
theorem separated_of_validate [Zero α] [One α] [Add α] [Sub α] [LT α] [DecidableLT α] [LE α]
    [DecidableLE α] [Scalar α] {box : Box α} {tolerance : α}
    (valid : Validity.validate box tolerance = .ok ()) : box.Separated := by
  have passed : Validity.runCheck .variableNaming box tolerance = .ok () :=
    (Attempt.forM_eq_ok_iff _ _).mp valid .variableNaming (by simp [Check.all])
  obtain ⟨_, -, checked⟩ := (Attempt.bind_eq_ok_iff _ _ _).mp passed
  exact separated_of_checkVariableNaming ((Attempt.ofExcept_eq_ok_iff _ _).mp checked)

namespace Separated

variable {box : Box α} (separated : box.Separated) {slot : Slot} {party : Nat} {name : String}

include separated

/-- Only the slot of the flag has its name. -/
theorem ready_eq (named : slot.name? box = some Identifier.readyFlag) : slot = .ready := by
  have notDeclared : Identifier.readyFlag ∉ box.inputs ++ box.outputs := by
    intro member
    exact separated.notReady _ member rfl
  cases slot with
  | ready => rfl
  | input other => exact (notDeclared (List.mem_append_left _ (List.mem_of_getElem? named))).elim
  | output other => exact (notDeclared (List.mem_append_right _ (List.mem_of_getElem? named))).elim
  | seen other =>
    obtain ⟨input, -, copied⟩ := Option.map_eq_some_iff.mp named
    exact (Identifier.seenVariable_ne_readyFlag input copied).elim

/-- A copy is the copy of one input alone. -/
theorem seen_eq (isInput : box.inputs[party]? = some name)
    (named : slot.name? box = some (Identifier.seenVariable name)) : slot = .seen party := by
  have notDeclared : Identifier.seenVariable name ∉ box.inputs ++ box.outputs := by
    intro member
    exact separated.notSeen _ member name (List.mem_of_getElem? isInput) rfl
  cases slot with
  | ready => exact (Identifier.seenVariable_ne_readyFlag name (Option.some.inj named).symm).elim
  | input other => exact (notDeclared (List.mem_append_left _ (List.mem_of_getElem? named))).elim
  | output other => exact (notDeclared (List.mem_append_right _ (List.mem_of_getElem? named))).elim
  | seen other =>
    obtain ⟨copied, isCopied, sameCopy⟩ := Option.map_eq_some_iff.mp named
    obtain rfl := Identifier.seenVariable_injective sameCopy
    rw [place_unique (List.nodup_append.mp separated.distinct).1 isCopied isInput]

/-- An input is the input of one party alone. -/
theorem input_eq (isInput : box.inputs[party]? = some name)
    (named : slot.name? box = some name) : slot = .input party := by
  obtain ⟨inputsDistinct, -, apart⟩ := List.nodup_append.mp separated.distinct
  have member := List.mem_of_getElem? isInput
  have declared : name ∈ box.inputs ++ box.outputs := List.mem_append_left _ member
  cases slot with
  | ready => exact (separated.notReady name declared (Option.some.inj named).symm).elim
  | input other => rw [place_unique inputsDistinct named isInput]
  | output other => exact (apart name member name (List.mem_of_getElem? named) rfl).elim
  | seen other =>
    obtain ⟨copied, isCopied, same⟩ := Option.map_eq_some_iff.mp named
    exact (separated.notSeen name declared copied (List.mem_of_getElem? isCopied) same.symm).elim

/-- An output is the output of one party alone. -/
theorem output_eq (isOutput : box.outputs[party]? = some name)
    (named : slot.name? box = some name) : slot = .output party := by
  obtain ⟨-, outputsDistinct, apart⟩ := List.nodup_append.mp separated.distinct
  have member := List.mem_of_getElem? isOutput
  have declared : name ∈ box.inputs ++ box.outputs := List.mem_append_right _ member
  cases slot with
  | ready => exact (separated.notReady name declared (Option.some.inj named).symm).elim
  | input other => exact (apart name (List.mem_of_getElem? named) name member rfl).elim
  | output other => rw [place_unique outputsDistinct named isOutput]
  | seen other =>
    obtain ⟨copied, isCopied, same⟩ := Option.map_eq_some_iff.mp named
    exact (separated.notSeen name declared copied (List.mem_of_getElem? isCopied) same.symm).elim

/-- Slots with the same name are the same. -/
theorem slot_eq {first second : Slot} (isFirst : first.name? box = some name)
    (isSecond : second.name? box = some name) : first = second := by
  cases first with
  | ready =>
    obtain rfl : Identifier.readyFlag = name := Option.some.inj isFirst
    exact (separated.ready_eq isSecond).symm
  | input party => exact (separated.input_eq isFirst isSecond).symm
  | output party => exact (separated.output_eq isFirst isSecond).symm
  | seen party =>
    obtain ⟨input, named, rfl⟩ := Option.map_eq_some_iff.mp isFirst
    exact (separated.seen_eq named isSecond).symm

end Separated

end Box

end Nonlocal
