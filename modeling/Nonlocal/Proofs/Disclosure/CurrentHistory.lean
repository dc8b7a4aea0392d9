import Nonlocal.Proofs.Disclosure.Histories

/-!
# The history that a stage is in

A history is the current one if it says of every party what the answers and the
question say. Once somebody has answered, exactly one listed history is current.
The tuples made from it are the ones that the query is made with, so its branches
are the weights of the question, and its guard holds exactly in the states that
show the stage.
-/

namespace Nonlocal.Disclosure.History

variable {α : Type} {box : Box α} {history other : History}

/-- The input that a party must have seen; nothing is asked of the other pending
parties. -/
def seen? (history : History) (party : Nat) : Option Nat :=
  if party = history.candidate then some history.input
  else history.known? history.knownInputs party

/-- A known output is in its range. -/
theorem Listed.known?_lt (listed : history.Listed box) {party count : Nat}
    (known : history.known? history.knownOutputs party = some count) :
    count < box.outputRange := by
  obtain ⟨slot, -, found⟩ := Option.bind_eq_some_iff.mp known
  exact listed.outputs_fit.2 count (List.mem_of_getElem? found)

/-- An input that a party must have seen is in its range. -/
theorem Listed.seen?_lt (listed : history.Listed box) {party count : Nat}
    (seen : history.seen? party = some count) : count < box.inputRange := by
  unfold History.seen? at seen
  split at seen
  · obtain rfl := Option.some.inj seen
    exact listed.input
  · obtain ⟨slot, -, found⟩ := Option.bind_eq_some_iff.mp seen
    exact listed.inputs_fit.2 count (List.mem_of_getElem? found)

/-- A history says of every party what the answers and the question say. -/
structure Current (parties : Nat) (answers : List Answer) (question : Question)
    (history : History) : Prop where
  candidate : history.candidate = question.party
  input : history.input = question.input
  inputs : ∀ party < parties, history.known? history.knownInputs party = asked? answers party
  outputs : ∀ party < parties, history.known? history.knownOutputs party = told? answers party

attribute [ext] History

/-- An output is disclosed by exactly the parties that have answered. -/
theorem isSome_told? {answers : List Answer} {party : Nat} :
    (told? answers party).isSome = (answerOf? answers party).isSome := by
  simp [told?]

namespace Current

variable {answers : List Answer} {question : Question}

/-- The pending parties of a current history are those without an answer. -/
theorem testBit (current : history.Current box.partyCount answers question)
    (listed : history.Listed box) {party : Nat} (present : party < box.partyCount) :
    history.mask.testBit party = (answerOf? answers party).isNone := by
  have known := history.isSome_known? listed.outputs_fit.1 party
  rw [current.outputs party present, isSome_told?, listed.mem_revealed] at known
  cases found : answerOf? answers party <;> simp_all

/-- There is a current history only after an answer. -/
theorem begun (current : history.Current box.partyCount answers question)
    (listed : history.Listed box) : answers ≠ [] := by
  rintro rfl
  obtain ⟨party, member⟩ := List.exists_mem_of_ne_nil _ listed.begun
  have present := ((listed.mem_revealed party).mp member).1
  rw [← history.isSome_known? listed.outputs_fit.1, current.outputs party present] at member
  simp [told?, answerOf?] at member

/-- There is one current history at most. -/
theorem unique (current : history.Current box.partyCount answers question)
    (listed : history.Listed box) (otherCurrent : other.Current box.partyCount answers question)
    (otherListed : other.Listed box) : history = other := by
  have sameMask : history.mask = other.mask := by
    refine PartySet.eq_of_members_eq listed.bound otherListed.bound ?_
    apply List.filter_congr
    intro party member
    have present := List.mem_range.mp member
    rw [current.testBit listed present, otherCurrent.testBit otherListed present]
  have sameRevealed : history.revealed = other.revealed := by
    rw [listed.revealed, otherListed.revealed, sameMask]
  have sameCandidate : history.candidate = other.candidate :=
    current.candidate.trans otherCurrent.candidate.symm
  have sameKnown (values : List Nat) (party : Nat) :
      other.known? values party = history.known? values party := by
    simp only [known?, sameRevealed]
  have present {party : Nat} (member : party ∈ history.revealed) : party < box.partyCount :=
    ((listed.mem_revealed party).mp member).1
  have sameInputs : history.knownInputs = other.knownInputs := by
    refine eq_of_known? listed.nodup_revealed listed.inputs_fit.1
      (sameRevealed ▸ otherListed.inputs_fit.1) fun party member => ?_
    rw [← sameKnown other.knownInputs, current.inputs party (present member),
      otherCurrent.inputs party (present member)]
  have sameOutputs : history.knownOutputs = other.knownOutputs := by
    refine eq_of_known? listed.nodup_revealed listed.outputs_fit.1
      (sameRevealed ▸ otherListed.outputs_fit.1) fun party member => ?_
    rw [← sameKnown other.knownOutputs, current.outputs party (present member),
      otherCurrent.outputs party (present member)]
  ext1
  · exact sameMask
  · exact sameRevealed
  · rw [listed.order, otherListed.order, sameCandidate, sameMask]
  · exact sameCandidate
  · exact current.input.trans otherCurrent.input.symm
  · refine place_unique (Tuple.nodup_walk _ _) listed.knownInputs ?_
    rw [sameInputs, sameRevealed]
    exact otherListed.knownInputs
  · exact sameInputs
  · refine place_unique (Tuple.nodup_walk _ _) listed.knownOutputs ?_
    rw [sameOutputs, sameRevealed]
    exact otherListed.knownOutputs
  · exact sameOutputs

variable (current : history.Current box.partyCount answers question)
  (listed : history.Listed box)

include current listed

/-- The inputs made from a current history are those of the query. -/
theorem fullTuple_inputs {ε : Type} :
    (history.fullTuple box.partyCount history.input history.knownInputs : Attempt ε (List Nat))
      = .ok (queryInput box.partyCount answers question) := by
  rw [fullTuple_eq_ok listed.inputs_fit.1]
  congr 1
  apply List.map_congr_left
  intro party member
  rw [current.inputs party (List.mem_range.mp member), current.candidate, current.input]

/-- The outputs made from a current history are those of the query. -/
theorem fullTuple_outputs {ε : Type} (output : Nat) :
    (history.fullTuple box.partyCount output history.knownOutputs : Attempt ε (List Nat))
      = .ok (queryOutput box.partyCount answers question output) := by
  rw [fullTuple_eq_ok listed.outputs_fit.1]
  congr 1
  apply List.map_congr_left
  intro party member
  rw [current.outputs party (List.mem_range.mp member), current.candidate]

/-- The pending parties of a current history are those of the query, in its order. -/
theorem order_eq : history.order = queryPending box.partyCount answers question := by
  rw [listed.order, current.candidate, queryPending, List.filter_filter]
  congr 1
  apply List.filter_congr
  intro party member
  rw [current.testBit listed (List.mem_range.mp member), Bool.and_comm]
  by_cases same : party = question.party <;> simp [same]

end Current

/-- What is known of a party when the values are made party by party. -/
theorem known?_map (history : History) (made : Nat → Nat) (party : Nat) :
    history.known? (history.revealed.map made) party
      = if party ∈ history.revealed then some (made party) else none := by
  unfold known?
  cases found : history.revealed.idxOf? party with
  | none => simp [List.idxOf?_eq_none_iff.mp found]
  | some slot =>
    obtain ⟨inside, same, -⟩ := List.idxOf?_eq_some_iff.mp found
    subst same
    simp [List.getElem?_eq_getElem inside]

/-- The history of the answers in which the asked party is the candidate, for a set of
pending parties and the places of the known tuples in their walks. -/
def after (parties mask : Nat) (answers : List Answer) (question : Question)
    (inputTuple outputTuple : Nat) : History where
  mask := mask
  revealed := (List.range parties).filter fun party => !mask.testBit party
  order := question.party
    :: ((List.range parties).filter mask.testBit).filter (· ≠ question.party)
  candidate := question.party
  input := question.input
  inputTuple := inputTuple
  knownInputs := ((List.range parties).filter fun party => !mask.testBit party).map
    fun party => (asked? answers party).getD 0
  outputTuple := outputTuple
  knownOutputs := ((List.range parties).filter fun party => !mask.testBit party).map
    fun party => (told? answers party).getD 0

/-- Values in a range, 0 where there is none, are a tuple. -/
theorem fits_map_getD {range : Nat} {held : Nat → Option Nat} (positive : 0 < range)
    (inside : ∀ party value, held party = some value → value < range) (parties : List Nat) :
    Tuple.Fits range parties.length (parties.map fun party => (held party).getD 0) := by
  refine ⟨by rw [List.length_map], ?_⟩
  intro digit member
  obtain ⟨party, -, rfl⟩ := List.mem_map.mp member
  cases holds : held party with
  | none => exact positive
  | some value => exact inside party value holds

section

variable {answers : List Answer} {question : Question} {mask inputTuple outputTuple : Nat}

/-- The history of the answers is the current one if its pending parties are those without
an answer. -/
theorem current_after {parties : Nat}
    (pending : ∀ party < parties, mask.testBit party = (answerOf? answers party).isNone) :
    (after parties mask answers question inputTuple outputTuple).Current parties answers
      question := by
  have revealedIff (party : Nat) (here : party < parties) :
      party ∈ (after parties mask answers question inputTuple outputTuple).revealed
        ↔ (answerOf? answers party).isSome := by
    simp only [after, List.mem_filter, List.mem_range, here, pending party here]
    cases answerOf? answers party <;> simp
  have known (held : Nat → Option Nat) (party : Nat) (here : party < parties)
      (sameSupport : (held party).isSome = (answerOf? answers party).isSome) :
      (after parties mask answers question inputTuple outputTuple).known?
          ((after parties mask answers question inputTuple outputTuple).revealed.map
            fun party => (held party).getD 0) party
        = held party := by
    rw [known?_map]
    simp only [revealedIff party here, ← sameSupport]
    cases held party <;> simp
  constructor
  · rfl
  · rfl
  · intro party here
    exact known (asked? answers) party here (by simp [asked?])
  · intro party here
    exact known (told? answers) party here (by simp [told?])

/-- Once somebody has answered, there is a current history for every question to a
party that has not. -/
theorem exists_current (begun : answers ≠ [])
    (fitting : ∀ answer ∈ answers, answer.party < box.partyCount
      ∧ answer.input < box.inputRange ∧ answer.output < box.outputRange)
    (present : question.party < box.partyCount) (inside : question.input < box.inputRange)
    (silent : answerOf? answers question.party = none) :
    ∃ history : History, history.Listed box
      ∧ history.Current box.partyCount answers question := by
  obtain ⟨mask, bound, members⟩ :=
    PartySet.exists_mask box.partyCount fun party => (answerOf? answers party).isNone
  have pending (party : Nat) (here : party < box.partyCount) :
      mask.testBit party = (answerOf? answers party).isNone := by
    have agree : party ∈ (List.range box.partyCount).filter mask.testBit
        ↔ party ∈ (List.range box.partyCount).filter
          fun party => (answerOf? answers party).isNone := by rw [members]
    simp only [List.mem_filter, List.mem_range, here, true_and] at agree
    exact Bool.eq_iff_iff.mpr agree
  obtain ⟨answer, member⟩ := List.exists_mem_of_ne_nil answers begun
  have someRevealed : answer.party
      ∈ (List.range box.partyCount).filter fun party => !mask.testBit party := by
    have here := (fitting answer member).1
    obtain ⟨other, found⟩ := exists_answerOf? member
    simp [here, pending answer.party here, found]
  have inputsFit := fits_map_getD ((Nat.zero_le _).trans_lt inside)
    (fun party _ (asked : asked? answers party = _) =>
      asked?_lt (fun answer member => (fitting answer member).2.1) asked)
    ((List.range box.partyCount).filter fun party => !mask.testBit party)
  have outputsFit := fits_map_getD ((Nat.zero_le _).trans_lt (fitting answer member).2.2)
    (fun party _ (told : told? answers party = _) =>
      told?_lt (fun answer member => (fitting answer member).2.2) told)
    ((List.range box.partyCount).filter fun party => !mask.testBit party)
  obtain ⟨inputTuple, inputsListed⟩ := List.mem_iff_getElem?.mp (Tuple.mem_walk.mpr inputsFit)
  obtain ⟨outputTuple, outputsListed⟩ := List.mem_iff_getElem?.mp (Tuple.mem_walk.mpr outputsFit)
  refine ⟨after box.partyCount mask answers question inputTuple outputTuple, ?_,
    current_after pending⟩
  exact {
    bound := bound
    begun := List.ne_nil_of_mem someRevealed
    revealed := rfl
    candidate := present
    pending := (pending question.party present).trans (by rw [silent]; rfl)
    order := rfl
    input := inside
    knownInputs := inputsListed
    knownOutputs := outputsListed }

end

/-- The equation on the copy of one party's input, if there is one. -/
theorem seenBinding_eq_ok {ε : Type} (listed : history.Listed box) (party : Nat)
    (input : String) :
    (do
      let value ←
        if party = history.candidate then pure (some history.input)
        else history.revealedValue history.knownInputs party
      pure (value.map fun value => ⟨Identifier.seenVariable input, intValue value⟩) :
        Attempt ε (Option Binding))
      = .ok ((history.seen? party).map fun value =>
          ⟨Identifier.seenVariable input, intValue value⟩) := by
  unfold seen?
  split
  · rfl
  · rw [revealedValue_eq_ok listed.inputs_fit.1]
    rfl

/-- What a guard asks of the copies of inputs. -/
theorem mem_seenGuard {ε : Type} (listed : history.Listed box) {guard : List Binding}
    (guarded : (history.seenGuard box : Attempt ε (List Binding)) = .ok guard)
    (equation : Binding) :
    equation ∈ guard
      ↔ ∃ party input, box.inputs[party]? = some input ∧ ∃ value,
          history.seen? party = some value
            ∧ equation = ⟨Identifier.seenVariable input, intValue value⟩ := by
  rw [Attempt.mem_filterMapM _ _ _ guarded]
  constructor
  · rintro ⟨⟨input, party⟩, member, given⟩
    have made := (seenBinding_eq_ok listed party input).symm.trans given
    obtain ⟨value, known, rfl⟩ := Option.map_eq_some_iff.mp (Except.ok.inj made)
    exact ⟨party, input, List.mem_zipIdx_iff_getElem?.mp member, value, known, rfl⟩
  · rintro ⟨party, input, named, value, known, rfl⟩
    refine ⟨(input, party), List.mem_zipIdx_iff_getElem?.mpr named, ?_⟩
    refine (seenBinding_eq_ok listed party input).trans ?_
    rw [known, Option.map_some]

/-- What a guard asks of the outputs. -/
theorem mem_outputGuard {ε : Type} (listed : history.Listed box) {guard : List Binding}
    (guarded : (history.outputGuard box : Attempt ε (List Binding)) = .ok guard)
    (equation : Binding) :
    equation ∈ guard
      ↔ ∃ party output, box.outputs[party]? = some output
          ∧ equation = ⟨output, holding (history.known? history.knownOutputs party)⟩ := by
  rw [Attempt.mem_mapM _ _ _ guarded]
  simp only [Prod.exists, List.mem_zipIdx_iff_getElem?,
    revealedValue_eq_ok listed.outputs_fit.1, bind, Except.bind, pure, Except.pure,
    Except.ok.injEq]
  constructor
  · rintro ⟨output, party, named, rfl⟩
    refine ⟨party, output, named, ?_⟩
    cases history.known? history.knownOutputs party <;> rfl
  · rintro ⟨party, output, named, rfl⟩
    refine ⟨output, party, named, ?_⟩
    cases history.known? history.knownOutputs party <;> rfl

/-- What the guard of a listed history asks of a state. -/
theorem satisfies_guard_iff {ε : Type} (listed : history.Listed box) {guard : List Binding}
    (guarded : (history.guard box : Attempt ε (List Binding)) = .ok guard)
    (valuation : Valuation) :
    valuation.Satisfies guard
      ↔ valuation Identifier.readyFlag = some (.bool false)
        ∧ (∀ party input, box.inputs[party]? = some input →
            ∀ value, history.seen? party = some value →
              valuation (Identifier.seenVariable input) = some (intValue value))
        ∧ (∀ party output, box.outputs[party]? = some output →
            valuation output
              = some (holding (history.known? history.knownOutputs party))) := by
  obtain ⟨seen, seenGuarded, rest⟩ := (Attempt.bind_eq_ok_iff _ _ _).mp guarded
  obtain ⟨outputs, outputsGuarded, same⟩ := (Attempt.bind_eq_ok_iff _ _ _).mp rest
  obtain rfl := Except.ok.inj same
  have inSeen := mem_seenGuard listed seenGuarded
  have inOutputs := mem_outputGuard listed outputsGuarded
  simp only [Valuation.Satisfies, List.cons_append, List.mem_cons, List.mem_append, inSeen,
    inOutputs]
  constructor
  · intro holds
    refine ⟨holds _ (Or.inl rfl), fun party input named value known => ?_,
      fun party output named => ?_⟩
    · exact holds _ (Or.inr (Or.inl ⟨party, input, named, value, known, rfl⟩))
    · exact holds _ (Or.inr (Or.inr ⟨party, output, named, rfl⟩))
  · rintro ⟨ready, seenHolds, outputsHold⟩ equation
      (rfl | ⟨party, input, named, value, known, rfl⟩ | ⟨party, output, named, rfl⟩)
    · exact ready
    · exact seenHolds party input named value known
    · exact outputsHold party output named

end Nonlocal.Disclosure.History
