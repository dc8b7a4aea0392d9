import Mathlib.Data.List.Nodup
import Mathlib.Data.List.Range
import Nonlocal.Proofs.Box.Lookup
import Nonlocal.Proofs.Identifier.Separation
import Nonlocal.Proofs.Model.Execution

/-!
# Stages of a disclosure

What a state of a generated model says about the disclosure is a stage: the
values drawn by the input modules, the answers given so far in the order in which
they were given, and the party that was asked and has not answered yet. A state
shows a stage if every variable holds the value that the stage gives to its slot.
Three things can happen to a stage, and each changes the slots of one party: an
input value is drawn, a drawn value is handed over, or the awaited output is
disclosed.
-/

namespace Nonlocal.Disclosure

variable {α : Type}

/-- A party that was handed an input value. -/
structure Question where
  party : Nat
  input : Nat
  deriving DecidableEq, Repr

/-- A party with the input it was handed and the output it disclosed. -/
structure Answer where
  party : Nat
  input : Nat
  output : Nat
  deriving DecidableEq, Repr

/-- The answer to a question. -/
def Question.answer (question : Question) (output : Nat) : Answer :=
  ⟨question.party, question.input, output⟩

@[simp] theorem Question.answer_party (question : Question) (output : Nat) :
    (question.answer output).party = question.party := rfl

@[simp] theorem Question.answer_input (question : Question) (output : Nat) :
    (question.answer output).input = question.input := rfl

@[simp] theorem Question.answer_output (question : Question) (output : Nat) :
    (question.answer output).output = output := rfl

/-- The answer of a party. -/
def answerOf? (answers : List Answer) (party : Nat) : Option Answer :=
  answers.find? (·.party == party)

/-- The input that a party has answered to. -/
def asked? (answers : List Answer) (party : Nat) : Option Nat :=
  (answerOf? answers party).map Answer.input

/-- The output that a party has disclosed. -/
def told? (answers : List Answer) (party : Nat) : Option Nat :=
  (answerOf? answers party).map Answer.output

/-- The value of a variable that may hold a count. -/
def holding : Option Nat → Value
  | some count => intValue count
  | none => unset

/-- A signed word is kept as it is. -/
theorem intValue_of_le {count : Nat} (word : count ≤ Word.greatestSigned) :
    intValue count = .int (.ofNat count) := by
  rw [intValue, Nat.min_eq_left word]

/-- A count is never mistaken for an unset variable. -/
theorem intValue_ne_unset (count : Nat) : intValue count ≠ unset := by
  intro same
  have negative : ((min count Word.greatestSigned : Nat) : Int) = -1 := Value.int.inj same
  omega

/-- Signed words are told apart by their values. -/
theorem intValue_inj {left right : Nat} (leftWord : left ≤ Word.greatestSigned)
    (rightWord : right ≤ Word.greatestSigned) : intValue left = intValue right ↔ left = right := by
  rw [intValue_of_le leftWord, intValue_of_le rightWord, Value.int.injEq, Int.ofNat.injEq]

/-- A variable holds exactly what was put into it, a signed word or nothing. -/
theorem holding_inj {left right : Option Nat}
    (leftWord : ∀ count, left = some count → count ≤ Word.greatestSigned)
    (rightWord : ∀ count, right = some count → count ≤ Word.greatestSigned) :
    holding left = holding right ↔ left = right := by
  cases left with
  | none =>
    cases right with
    | none => simp
    | some count => simpa [holding] using Ne.symm (intValue_ne_unset count)
  | some count =>
    cases right with
    | none => simpa [holding] using intValue_ne_unset count
    | some other =>
      simpa [holding] using intValue_inj (leftWord count rfl) (rightWord other rfl)

/-- A variable is unset exactly if it holds nothing. -/
theorem holding_eq_unset {held : Option Nat} : holding held = unset ↔ held = none := by
  cases held with
  | none => simp [holding]
  | some count => simpa [holding] using intValue_ne_unset count

/-- The count that a variable holds can be read off. -/
theorem count?_of_holding {valuation : Valuation} {name : String} {held : Option Nat}
    (holds : valuation name = some (holding held))
    (word : ∀ count, held = some count → count ≤ Word.greatestSigned) :
    valuation.count? name = held := by
  cases held with
  | none => simp [Valuation.count?, holds, holding, unset]
  | some count => simp [Valuation.count?, holds, holding, intValue_of_le (word count rfl)]

/-- A state has these values in the slots of a box. -/
def Shows (box : Box α) (valuation : Valuation) (values : Slot → Value) : Prop :=
  ∀ slot name, slot.name? box = some name → valuation name = some (values slot)

/-- Assigning to the variable of a slot changes that slot alone. -/
theorem Shows.update {box : Box α} {valuation : Valuation} {values : Slot → Value}
    (shown : Shows box valuation values) (separated : box.Separated) {slot : Slot}
    {name : String} (named : slot.name? box = some name) (value : Value) :
    Shows box (Function.update valuation name (some value))
      (Function.update values slot value) := by
  intro other otherName otherNamed
  by_cases same : other = slot
  · subst same
    obtain rfl := Option.some.inj (named.symm.trans otherNamed)
    simp
  · have different : otherName ≠ name := by
      rintro rfl
      exact same (separated.slot_eq otherNamed named)
    simpa [Function.update_of_ne different, Function.update_of_ne same]
      using shown other otherName otherNamed

/-- How far a disclosure has come. -/
structure Stage where
  /-- The value that the input module of a party has drawn. -/
  drawn : Nat → Option Nat
  /-- The answers given, the first one first. -/
  answers : List Answer
  /-- The question that has not been answered. -/
  awaiting : Option Question

section

variable {answers : List Answer} {answer : Answer} {party : Nat}

/-- A party without an answer is not the party of any. -/
theorem answerOf?_eq_none :
    answerOf? answers party = none ↔ ∀ answer ∈ answers, answer.party ≠ party := by
  simp [answerOf?]

/-- The answer of a party is one of the answers, and the party's. -/
theorem answerOf?_eq_some (found : answerOf? answers party = some answer) :
    answer ∈ answers ∧ answer.party = party :=
  ⟨List.mem_of_find?_eq_some found, by simpa using List.find?_some found⟩

/-- A party with an answer among the answers has one that is found. -/
theorem exists_answerOf? (member : answer ∈ answers) :
    ∃ other, answerOf? answers answer.party = some other := by
  cases found : answerOf? answers answer.party with
  | none => exact (answerOf?_eq_none.mp found answer member rfl).elim
  | some other => exact ⟨other, rfl⟩

/-- If no party answers twice, every answer is found under its party. -/
theorem answerOf?_of_mem (distinct : (answers.map Answer.party).Nodup)
    (member : answer ∈ answers) : answerOf? answers answer.party = some answer := by
  obtain ⟨other, found⟩ := exists_answerOf? member
  obtain ⟨otherMember, sameParty⟩ := answerOf?_eq_some found
  rw [found, List.inj_on_of_nodup_map distinct otherMember member sameParty]

/-- What a party was asked is the input of one of the answers. -/
theorem asked?_lt {range input : Nat} (inside : ∀ answer ∈ answers, answer.input < range)
    (asked : asked? answers party = some input) : input < range := by
  obtain ⟨answer, found, rfl⟩ := Option.map_eq_some_iff.mp asked
  exact inside answer (answerOf?_eq_some found).1

/-- What a party has told is the output of one of the answers. -/
theorem told?_lt {range output : Nat} (inside : ∀ answer ∈ answers, answer.output < range)
    (told : told? answers party = some output) : output < range := by
  obtain ⟨answer, found, rfl⟩ := Option.map_eq_some_iff.mp told
  exact inside answer (answerOf?_eq_some found).1

/-- One more answer is found under its party, unless that party had answered before. -/
theorem answerOf?_append (fresh : answerOf? answers answer.party = none) (other : Nat) :
    answerOf? (answers ++ [answer]) other
      = if other = answer.party then some answer else answerOf? answers other := by
  simp only [answerOf?, List.find?_append] at fresh ⊢
  by_cases same : other = answer.party
  · subst same
    simp [fresh]
  · have different : (answer.party == other) = false := by simpa using Ne.symm same
    simp [same, different]

end

namespace Stage

/-- Nothing is drawn, asked or answered. -/
def initial : Stage := ⟨fun _ => none, [], none⟩

/-- The input value of a party that the output module has recorded. -/
def seen? (stage : Stage) (party : Nat) : Option Nat :=
  match stage.awaiting with
  | some question =>
    if party = question.party then some question.input else asked? stage.answers party
  | none => asked? stage.answers party

/-- The value of a slot. -/
def value (stage : Stage) : Slot → Value
  | .ready => .bool stage.awaiting.isNone
  | .input party => holding (stage.drawn party)
  | .output party => holding (told? stage.answers party)
  | .seen party => holding (stage.seen? party)

/-- A party draws an input value. -/
def toss (stage : Stage) (party value : Nat) : Stage :=
  { stage with drawn := Function.update stage.drawn party (some value) }

/-- A party hands its input value over. -/
def hand (stage : Stage) (question : Question) : Stage :=
  { stage with
    drawn := Function.update stage.drawn question.party none
    awaiting := some question }

/-- The awaited output is disclosed. -/
def disclose (stage : Stage) (answer : Answer) : Stage :=
  { stage with answers := stage.answers ++ [answer], awaiting := none }

/-- The stages that a box can come to: values are in their ranges, parties exist, and
no party is asked twice. -/
structure Sound (box : Box α) (stage : Stage) : Prop where
  drawn : ∀ party value, stage.drawn party = some value →
    party < box.partyCount ∧ value < box.inputRange
  answers : ∀ answer ∈ stage.answers,
    answer.party < box.partyCount ∧ answer.input < box.inputRange
      ∧ answer.output < box.outputRange
  distinct : (stage.answers.map Answer.party).Nodup
  awaiting : ∀ question, stage.awaiting = some question →
    question.party < box.partyCount ∧ question.input < box.inputRange
      ∧ answerOf? stage.answers question.party = none

/-- A state shows a stage if its variables hold the values of their slots. -/
def Shown (box : Box α) (stage : Stage) (valuation : Valuation) : Prop :=
  Shows box valuation stage.value

variable {box : Box α} {stage : Stage} {valuation : Valuation} {question : Question}

/-- The ready flag is up while no question is awaited. -/
theorem Shown.ready (shown : Shown box stage valuation) :
    valuation Identifier.readyFlag = some (.bool stage.awaiting.isNone) :=
  shown .ready _ rfl

/-- The flag is down exactly if a question is awaited. -/
theorem Shown.ready_eq_false_iff (shown : Shown box stage valuation) :
    valuation Identifier.readyFlag = some (.bool false)
      ↔ ∃ question, stage.awaiting = some question := by
  rw [shown.ready]
  cases stage.awaiting <;> simp

/-- An input variable holds the value that was drawn. -/
theorem Shown.input (shown : Shown box stage valuation) {party : Nat} {input : String}
    (named : box.inputs[party]? = some input) :
    valuation input = some (holding (stage.drawn party)) :=
  shown (.input party) input named

/-- An output variable holds the output that was disclosed. -/
theorem Shown.output (shown : Shown box stage valuation) {party : Nat} {output : String}
    (named : box.outputs[party]? = some output) :
    valuation output = some (holding (told? stage.answers party)) :=
  shown (.output party) output named

/-- The copy of an input holds the value that was recorded. -/
theorem Shown.seen (shown : Shown box stage valuation) {party : Nat} {input : String}
    (named : box.inputs[party]? = some input) :
    valuation (Identifier.seenVariable input) = some (holding (stage.seen? party)) :=
  shown (.seen party) _ (by simp [Slot.name?, named])

theorem sound_initial (box : Box α) : Sound box initial where
  drawn := by simp [initial]
  answers := by simp [initial]
  distinct := by simp [initial]
  awaiting := by simp [initial]

/-- Drawing a value in its range keeps a stage sound. -/
theorem Sound.toss (sound : Sound box stage) {party value : Nat}
    (present : party < box.partyCount) (inside : value < box.inputRange) :
    Sound box (stage.toss party value) where
  drawn := by
    intro other drawn holds
    by_cases same : other = party
    · subst same
      obtain rfl : value = drawn := by simpa [Stage.toss] using holds
      exact ⟨present, inside⟩
    · exact sound.drawn other drawn (by simpa [Stage.toss, same] using holds)
  answers := sound.answers
  distinct := sound.distinct
  awaiting := sound.awaiting

/-- Handing a drawn value over for the first time keeps a stage sound. -/
theorem Sound.hand (sound : Sound box stage)
    (drawn : stage.drawn question.party = some question.input)
    (fresh : answerOf? stage.answers question.party = none) :
    Sound box (stage.hand question) where
  drawn := by
    intro other value holds
    by_cases same : other = question.party
    · simp [Stage.hand, same] at holds
    · exact sound.drawn other value (by simpa [Stage.hand, same] using holds)
  answers := sound.answers
  distinct := sound.distinct
  awaiting := by
    intro other awaited
    obtain rfl : question = other := by simpa [Stage.hand] using awaited
    obtain ⟨present, inside⟩ := sound.drawn _ _ drawn
    exact ⟨present, inside, fresh⟩

/-- Disclosing an output in its range keeps a stage sound. -/
theorem Sound.disclose (sound : Sound box stage) {output : Nat}
    (awaited : stage.awaiting = some question) (inside : output < box.outputRange) :
    Sound box (stage.disclose (question.answer output)) where
  drawn := sound.drawn
  answers := by
    intro answer member
    rcases List.mem_append.mp member with earlier | last
    · exact sound.answers answer earlier
    · obtain rfl := List.mem_singleton.mp last
      obtain ⟨present, asked, -⟩ := sound.awaiting question awaited
      exact ⟨present, asked, inside⟩
  distinct := by
    obtain ⟨-, -, fresh⟩ := sound.awaiting question awaited
    simp only [Stage.disclose, List.map_append, List.map_cons, List.map_nil]
    rw [List.nodup_append_comm, List.singleton_append, List.nodup_cons]
    refine ⟨fun again => ?_, sound.distinct⟩
    obtain ⟨answer, member, sameParty⟩ := List.mem_map.mp again
    exact answerOf?_eq_none.mp fresh answer member sameParty
  awaiting := by simp [Stage.disclose]

/-- A party that has answered is no longer awaited, so what it was asked is what it
answered to. -/
theorem Sound.seen?_of_answerOf? (sound : Sound box stage) {party : Nat} {answer : Answer}
    (found : answerOf? stage.answers party = some answer) :
    stage.seen? party = some answer.input := by
  unfold seen?
  split
  · next question awaited =>
    have fresh := (sound.awaiting question awaited).2.2
    have different : party ≠ question.party := by
      rintro rfl
      rw [found] at fresh
      cases fresh
    simp [different, asked?, found]
  · simp [asked?, found]

/-- The awaited party has seen its question. -/
theorem seen?_awaiting (awaited : stage.awaiting = some question) :
    stage.seen? question.party = some question.input := by
  simp [seen?, awaited]

/-- A party that has seen an input without answering is the awaited one. -/
theorem awaiting_of_seen? {party input : Nat} (seen : stage.seen? party = some input)
    (silent : answerOf? stage.answers party = none) :
    stage.awaiting = some ⟨party, input⟩ := by
  have unasked : asked? stage.answers party = none := by simp [asked?, silent]
  unfold seen? at seen
  split at seen
  · next question awaited =>
    split at seen
    · next same =>
      obtain rfl := Option.some.inj seen
      rw [awaited, same]
    · rw [unasked] at seen
      cases seen
  · rw [unasked] at seen
    cases seen

/-- Values that are recorded are in their ranges. -/
theorem Sound.seen?_lt (sound : Sound box stage) {party input : Nat}
    (seen : stage.seen? party = some input) : input < box.inputRange := by
  cases found : answerOf? stage.answers party with
  | none => exact (sound.awaiting _ (awaiting_of_seen? seen found)).2.1
  | some answer =>
    rw [sound.seen?_of_answerOf? found] at seen
    obtain rfl := Option.some.inj seen
    exact (sound.answers answer (answerOf?_eq_some found).1).2.1

/-- Outputs that are disclosed are in their range. -/
theorem Sound.told?_lt (sound : Sound box stage) {party output : Nat}
    (told : told? stage.answers party = some output) : output < box.outputRange :=
  Disclosure.told?_lt (fun answer member => (sound.answers answer member).2.2) told

/-- The input that a party has seen can be read off a state. -/
theorem Shown.count?_seen (shown : Shown box stage valuation) (sound : Sound box stage)
    (shaped : box.Shaped) (storable : box.Storable) {party : Nat} {input : String}
    (named : box.inputs[party]? = some input) :
    valuation.count? (Identifier.seenVariable input) = stage.seen? party := by
  refine count?_of_holding (shown.seen named) ?_
  intro count seen
  exact (sound.seen?_lt seen).le.trans (shaped.inputRange_le storable)

/-- The output that a party has disclosed can be read off a state. -/
theorem Shown.count?_output (shown : Shown box stage valuation) (sound : Sound box stage)
    (shaped : box.Shaped) (storable : box.Storable) {party : Nat} {output : String}
    (named : box.outputs[party]? = some output) :
    valuation.count? output = told? stage.answers party := by
  refine count?_of_holding (shown.output named) ?_
  intro count told
  exact (sound.told?_lt told).le.trans (shaped.outputRange_le storable)

/-- Drawing changes the input slot of the party. -/
theorem value_toss (stage : Stage) (party value : Nat) :
    (stage.toss party value).value
      = Function.update stage.value (.input party) (intValue value) := by
  funext slot
  cases slot with
  | input other =>
    by_cases same : other = party
    · subst same
      simp [Stage.value, toss, holding]
    · simp [Stage.value, toss, same]
  | ready | output | seen => simp [Stage.value, toss, seen?]

/-- Handing over clears the input slot, lowers the flag and records the value. -/
theorem value_hand (stage : Stage) (question : Question)
    (idle : stage.awaiting = none) :
    (stage.hand question).value
      = Function.update (Function.update (Function.update stage.value
          (.input question.party) unset) .ready (.bool false))
          (.seen question.party) (intValue question.input) := by
  funext slot
  cases slot with
  | ready => simp [Stage.value, hand]
  | input other =>
    by_cases same : other = question.party
    · subst same
      simp [Stage.value, hand, holding]
    · simp [Stage.value, hand, same]
  | output other => simp [Stage.value, hand]
  | seen other =>
    by_cases same : other = question.party
    · subst same
      simp [Stage.value, hand, seen?, holding]
    · simp [Stage.value, hand, seen?, same, idle]

/-- Disclosing sets the output slot and raises the flag. -/
theorem Sound.value_disclose (sound : Sound box stage)
    (awaited : stage.awaiting = some question) (output : Nat) :
    (stage.disclose (question.answer output)).value
      = Function.update (Function.update stage.value (.output question.party) (intValue output))
          .ready (.bool true) := by
  have fresh : answerOf? stage.answers (question.answer output).party = none :=
    (sound.awaiting question awaited).2.2
  have appended := answerOf?_append fresh
  funext slot
  cases slot with
  | ready => simp [Stage.value, Stage.disclose]
  | input other => simp [Stage.value, Stage.disclose]
  | output other =>
    by_cases same : other = question.party
    · subst same
      simp [Stage.value, Stage.disclose, told?, appended, holding]
    · simp [Stage.value, Stage.disclose, told?, appended, same]
  | seen other =>
    by_cases same : other = question.party
    · subst same
      simp [Stage.value, Stage.disclose, seen?, asked?, appended, awaited]
    · simp [Stage.value, Stage.disclose, seen?, asked?, appended, awaited, same]

/-- Assigning a drawn value shows the stage after the draw. -/
theorem Shown.toss (shown : Shown box stage valuation) (separated : box.Separated)
    {party : Nat} {input : String} (named : box.inputs[party]? = some input) (value : Nat) :
    Shown box (stage.toss party value) (valuation.assign [⟨input, intValue value⟩]) := by
  have inputSlot : (Slot.input party).name? box = some input := named
  rw [Shown, value_toss]
  exact shown.update separated inputSlot (intValue value)

/-- Clearing an input, lowering the flag and recording the value shows the stage after
the value was handed over. -/
theorem Shown.hand (shown : Shown box stage valuation) (separated : box.Separated)
    {input : String} (named : box.inputs[question.party]? = some input)
    (idle : stage.awaiting = none) :
    Shown box (stage.hand question) (valuation.assign [⟨input, unset⟩,
      ⟨Identifier.readyFlag, .bool false⟩,
      ⟨Identifier.seenVariable input, intValue question.input⟩]) := by
  have inputSlot : (Slot.input question.party).name? box = some input := named
  have readySlot : Slot.ready.name? box = some Identifier.readyFlag := rfl
  have seenSlot : (Slot.seen question.party).name? box = some (Identifier.seenVariable input) := by
    simp [Slot.name?, named]
  rw [Shown, value_hand stage question idle]
  exact ((shown.update separated inputSlot unset).update separated readySlot _).update separated
    seenSlot _

/-- Setting an output and raising the flag shows the stage after the disclosure. -/
theorem Shown.disclose (shown : Shown box stage valuation) (separated : box.Separated)
    (sound : Sound box stage) (awaited : stage.awaiting = some question) {output : String}
    (named : box.outputs[question.party]? = some output) (value : Nat) :
    Shown box (stage.disclose (question.answer value)) (valuation.assign
      [⟨output, intValue value⟩, ⟨Identifier.readyFlag, .bool true⟩]) := by
  have outputSlot : (Slot.output question.party).name? box = some output := named
  have readySlot : Slot.ready.name? box = some Identifier.readyFlag := rfl
  rw [Shown, sound.value_disclose awaited]
  exact (shown.update separated outputSlot _).update separated readySlot _

end Stage

end Nonlocal.Disclosure
