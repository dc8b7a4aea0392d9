import Nonlocal.Proofs.Disclosure.Protocol
import Nonlocal.Proofs.Disclosure.Reproduction

/-!
# When a disclosure can always go on

While the ready flag is down, some disclosing command should be enabled. Commands
without branches are left out of a model, so this depends on the box: every history
that earlier answers can produce needs a possible answer to every further question.
The model never gets stuck exactly if the box has that property.

A box that is non-signalling only within a tolerance may lack it. The first answer is
possible if it is possible on the average over the inputs of the others, but later
queries fix pending inputs at 0, and there the first answer may be impossible.
-/

namespace Nonlocal.Disclosure

variable {α : Type} [Zero α] [Add α] [Div α] [BEq α] [Scalar α] [LT α] [DecidableLT α]

/-- Every history that answers can produce has an answer to every further question. -/
def Continues (box : Box α) : Prop :=
  ∀ answers, Foreseen box answers → ∀ question : Question,
    question.party < box.partyCount → question.input < box.inputRange →
    answerOf? answers question.party = none →
    ∃ output weight, Discloses box answers question output weight

/-- A box that is valid at tolerance 0 has the property: the marginals of the possible
answers sum to that of the history, so one of them is positive. -/
theorem continues_of_validate {box : Box Rat} (shaped : box.Shaped)
    (valid : Validity.validate box 0 = .ok ()) : Continues box := by
  have exact := Validity.exact_of_validate shaped valid
  intro answers foreseen question present inside fresh
  have sound := foreseen.sound.asking present inside fresh
  have fits := sound.queryInput_fits rfl
  obtain ⟨asks, asked⟩ := (asks_append _ _ _).mp (sound.asks_queryInput rfl 0)
  have positive := foreseen.mass_pos exact fits asks
  have total := sum_mass_append (queryInput box.partyCount answers question) answers present
  obtain ⟨output, member, possible⟩ := Finset.exists_ne_zero_of_sum_ne_zero (total ▸ positive.ne')
  have likely := lt_of_le_of_ne (mass_nonneg exact _ _) possible.symm
  exact ⟨output, _, (discloses_iff exact sound rfl fits asks asked positive output _).mpr
    ⟨Finset.mem_range.mp member, likely, rfl⟩⟩

namespace Setting

variable {box : Box α} {model : Model α} {output : Module α}
  {reduced normalised : List (Command α)}
  (setting : Setting box model output reduced normalised)

include setting

/-- A state in which the awaited question has an answer offers a command. -/
theorem exists_offer {stage : Stage} {state : Valuation} (sound : stage.Sound box)
    (shown : stage.Shown box state) {question : Question}
    (awaited : stage.awaiting = some question) {value : Nat} {weight : α}
    (discloses : Discloses box stage.answers question value weight) :
    ∃ place command, model.Offers state place command := by
  obtain ⟨values, weighted, listed⟩ := discloses
  obtain ⟨others, otherWeighted, made⟩ := setting.made.exists_enabled setting.shaped
    setting.storable sound shown awaited
  obtain rfl := Except.ok.inj (weighted.symm.trans otherWeighted)
  obtain ⟨command, member, enabled, serves⟩ := made (List.ne_nil_of_mem listed)
  have inOutput : command ∈ output.commands := (setting.mem_output command).mpr (Or.inr member)
  have inModel : command ∈ model.modules.flatMap Module.commands :=
    List.mem_flatMap.mpr ⟨output, (setting.mem_modules output).mpr (Or.inr rfl), inOutput⟩
  obtain ⟨place, atPlace⟩ := List.mem_iff_getElem?.mp inModel
  exact ⟨place, command, atPlace, serves.family ▸ familyAfter_discloses _, enabled⟩

/-- After answers that can be given, any further question can be awaited. -/
theorem exists_awaiting {answers : List Answer} (foreseen : Foreseen box answers)
    {question : Question} (present : question.party < box.partyCount)
    (inside : question.input < box.inputRange)
    (fresh : answerOf? answers question.party = none) :
    ∃ (stage : Stage) (state : Valuation), model.Reachable state ∧ stage.Sound box
      ∧ stage.Shown box state ∧ stage.answers = answers ∧ stage.awaiting = some question := by
  obtain ⟨trace, state, run, follows, shown⟩ := setting.run_of_foreseen foreseen
  obtain ⟨tossing, run, -, follows, shown⟩ := setting.run_of_moves run follows shown
    (.toss question.party question.input present rfl inside)
  obtain ⟨handing, run, -, follows, shown⟩ := setting.run_of_moves run follows shown
    (.hand question (by simp [Stage.toss]) rfl fresh)
  exact ⟨_, handing.after, ⟨_, run⟩, follows.sound, shown, rfl, rfl⟩

/-- A question without an answer leaves the model stuck with the flag down. -/
theorem exists_stuck {answers : List Answer} (foreseen : Foreseen box answers)
    (question : Question) (present : question.party < box.partyCount)
    (inside : question.input < box.inputRange)
    (fresh : answerOf? answers question.party = none)
    (impossible : weights box answers question = .ok []) :
    ∃ state, model.Reachable state ∧ state Identifier.readyFlag = some (.bool false)
      ∧ ∀ place command, ¬ model.Offers state place command := by
  obtain ⟨stage, state, reachable, sound, shown, rfl, awaited⟩ :=
    setting.exists_awaiting foreseen present inside fresh
  refine ⟨state, reachable, shown.ready_eq_false_iff.mpr ⟨question, awaited⟩, ?_⟩
  rintro place command ⟨atPlace, discloses, enabled⟩
  have listed := setting.mem_of_discloses (List.mem_of_getElem? atPlace) discloses
  obtain ⟨other, otherAwaited, serves⟩ := setting.made.serves_of_enabled setting.shaped
    setting.storable sound shown listed enabled
  obtain rfl := Option.some.inj (awaited.symm.trans otherAwaited)
  obtain ⟨_, values, -, weighted, nonempty, -⟩ := serves.branches
  exact nonempty (Except.ok.inj (weighted.symm.trans impossible))

/-- The queries of a model succeed for every question that can be awaited. -/
theorem exists_weights {answers : List Answer} (foreseen : Foreseen box answers)
    {question : Question} (present : question.party < box.partyCount)
    (inside : question.input < box.inputRange)
    (fresh : answerOf? answers question.party = none) :
    ∃ values, weights box answers question = .ok values := by
  obtain ⟨stage, state, -, sound, shown, rfl, awaited⟩ :=
    setting.exists_awaiting foreseen present inside fresh
  obtain ⟨values, weighted, -⟩ := setting.made.exists_enabled setting.shaped setting.storable
    sound shown awaited
  exact ⟨values, weighted⟩

end Setting

/-- The model of a valid box offers a disclosing command in every reachable state with
the flag down exactly if every history has an answer to every further question. -/
theorem never_stuck_iff [One α] [Sub α] [LE α] [DecidableLE α] {box : Box α} {tolerance : α}
    {model : Model α} (storable : box.Storable)
    (valid : Validity.validate box tolerance = .ok ())
    (generated : Disclosure.model box = .ok model) :
    (∀ state, model.Reachable state → state Identifier.readyFlag = some (.bool false) →
        ∃ place command, model.Offers state place command)
      ↔ Continues box := by
  obtain ⟨output, reduced, normalised, setting⟩ :=
    exists_setting (Box.separated_of_validate valid) storable generated
  constructor
  · intro offering answers foreseen question present inside fresh
    obtain ⟨values, weighted⟩ := setting.exists_weights foreseen present inside fresh
    cases values with
    | nil =>
      obtain ⟨state, reachable, down, silent⟩ :=
        setting.exists_stuck foreseen question present inside fresh weighted
      obtain ⟨place, command, offers⟩ := offering state reachable down
      exact (silent place command offers).elim
    | cons first rest => exact ⟨first.1, first.2, _, weighted, List.mem_cons_self⟩
  · rintro continues state ⟨trace, run⟩ down
    obtain ⟨stage, follows, shown⟩ := setting.follows_of_run run
    obtain ⟨question, awaited⟩ := shown.ready_eq_false_iff.mp down
    obtain ⟨present, inside, fresh⟩ := follows.sound.awaiting question awaited
    obtain ⟨value, weight, discloses⟩ :=
      continues _ follows.foreseen question present inside fresh
    exact setting.exists_offer follows.sound shown awaited discloses

/-- The equivalence at the correlated box. -/
theorem correlated_never_stuck_iff :
    ∃ model, Disclosure.model (Box.correlated 0 0.5 : Box Float) = .ok model
      ∧ ((∀ state, model.Reachable state → state Identifier.readyFlag = some (.bool false) →
            ∃ place command, model.Offers state place command)
          ↔ Continues (Box.correlated 0 0.5 : Box Float)) := by
  have valid : Validity.validate (Box.correlated 0 0.5 : Box Float) Validity.defaultTolerance
      = .ok () := Attempt.eq_ok_of_toOption (by decide +kernel)
  obtain ⟨model, generated⟩ :
      ∃ model, Disclosure.model (Box.correlated 0 0.5 : Box Float) = .ok model :=
    Attempt.exists_eq_ok (by decide +kernel)
  exact ⟨model, generated, never_stuck_iff (by decide) valid generated⟩

/-- A box in which the second party's input shows a little in the answers of the first:
asked with 0 it answers 1 about once in a million times, but only if the second party
is asked with 1. -/
def driftingBox : Box Float where
  inputs := ["x", "y"]
  outputs := ["a", "b"]
  inputRange := 2
  outputRange := 2
  matrix := [
    [1, 0, 0, 0],
    [0.9999990463256836, 0, 0.00000095367431640625, 0],
    [1, 0, 0, 0],
    [1, 0, 0, 0]]

/-- The drifting box is valid and has a model, and the model gets stuck: after the
first party was asked with 0 and answered 1, there is no answer to the question 0 to
the second party. -/
theorem driftingBox_stuck :
    Validity.validate driftingBox Validity.defaultTolerance = .ok ()
      ∧ ∃ model state, Disclosure.model driftingBox = .ok model ∧ model.Reachable state
        ∧ state Identifier.readyFlag = some (.bool false)
        ∧ ∀ place command, ¬ model.Offers state place command := by
  have valid : Validity.validate driftingBox Validity.defaultTolerance = .ok () :=
    Attempt.eq_ok_of_toOption (by decide +kernel)
  obtain ⟨model, generated⟩ : ∃ model, Disclosure.model driftingBox = .ok model :=
    Attempt.exists_eq_ok (by decide +kernel)
  obtain ⟨output, reduced, normalised, setting⟩ :=
    exists_setting (Box.separated_of_validate valid) (by decide) generated
  have rare : ∃ weight, Discloses driftingBox [] ⟨0, 0⟩ 1 weight := by
    obtain ⟨values, weighted⟩ : ∃ values, weights driftingBox [] ⟨0, 0⟩ = .ok values :=
      Attempt.exists_eq_ok (by decide +kernel)
    obtain ⟨weight, listed⟩ := (exists_discloses_iff weighted 1).mpr
      ⟨by decide, 0.000000476837158203125, Attempt.eq_ok_of_toOption (by decide +kernel),
        by decide +kernel⟩
    exact ⟨weight, values, weighted, listed⟩
  obtain ⟨weight, discloses⟩ := rare
  have foreseen : Foreseen driftingBox [⟨0, 0, 1⟩] :=
    .next .start (by decide) (by decide) rfl discloses
  have impossible : weights driftingBox [⟨0, 0, 1⟩] ⟨1, 0⟩ = .ok [] :=
    Attempt.eq_ok_of_toOption (by decide +kernel)
  have awaitable : (1 : Nat) < driftingBox.partyCount := by decide
  have allowed : (0 : Nat) < driftingBox.inputRange := by decide
  obtain ⟨state, reachable, down, silent⟩ :=
    setting.exists_stuck foreseen ⟨1, 0⟩ awaitable allowed rfl impossible
  exact ⟨valid, model, state, generated, reachable, down, silent⟩

end Nonlocal.Disclosure
