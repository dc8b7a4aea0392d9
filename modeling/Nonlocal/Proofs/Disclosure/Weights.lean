import Nonlocal.Proofs.Disclosure.Stage

/-!
# What a disclosure is weighted with

When a party is asked, the box is queried for each value that the party may
answer: the averaged marginal if nobody has answered before, else the
distribution given all answers so far. The queries are put together from the
answers and the question alone, with 0 in the place of every party that is still
to come. The weights of a question are the values with positive probability; first
answers are rescaled to sum to 1.
-/

namespace Nonlocal.Disclosure

variable {α : Type}

/-- The inputs that a query is made with. -/
def queryInput (parties : Nat) (answers : List Answer) (question : Question) : List Nat :=
  (List.range parties).map fun party =>
    if party = question.party then question.input else (asked? answers party).getD 0

/-- The outputs that a query is made with. -/
def queryOutput (parties : Nat) (answers : List Answer) (question : Question) (output : Nat) :
    List Nat :=
  (List.range parties).map fun party =>
    if party = question.party then output else (told? answers party).getD 0

/-- The parties that have not answered, the asked one first. -/
def queryPending (parties : Nat) (answers : List Answer) (question : Question) : List Nat :=
  question.party :: (List.range parties).filter fun party =>
    (answerOf? answers party).isNone && party != question.party

/-- The family of the commands that answer next. -/
def familyAfter (answers : List Answer) : Family :=
  if answers.isEmpty then .reduced else .normalised

/-- An input with an answer or a question belongs to a tuple of inputs. -/
theorem queryInput_fits {parties range : Nat} {answers : List Answer} {question : Question}
    (inside : ∀ answer ∈ answers, answer.input < range) (asked : question.input < range) :
    Tuple.Fits range parties (queryInput parties answers question) := by
  refine ⟨by simp [queryInput], ?_⟩
  intro digit member
  obtain ⟨party, -, rfl⟩ := List.mem_map.mp member
  split
  · exact asked
  · cases found : asked? answers party with
    | none => exact (Nat.zero_le _).trans_lt asked
    | some input => exact asked?_lt inside found

/-- An output with an answer or a candidate value belongs to a tuple of outputs. -/
theorem queryOutput_fits {parties range output : Nat} {answers : List Answer}
    {question : Question} (inside : ∀ answer ∈ answers, answer.output < range)
    (candidate : output < range) :
    Tuple.Fits range parties (queryOutput parties answers question output) := by
  refine ⟨by simp [queryOutput], ?_⟩
  intro digit member
  obtain ⟨party, -, rfl⟩ := List.mem_map.mp member
  split
  · exact candidate
  · cases found : told? answers party with
    | none => exact (Nat.zero_le _).trans_lt candidate
    | some told => exact told?_lt inside found

/-- The values listed with positive probability are those of the range that have it. -/
theorem mem_positiveValues [Zero α] [LT α] [DecidableLT α] {ε : Type} {range : Nat}
    {probability : Nat → Attempt ε α} {values : List (Nat × α)}
    (listed : positiveValues range probability = .ok values) (output : Nat) (p : α) :
    (output, p) ∈ values ↔ output < range ∧ probability output = .ok p ∧ 0 < p := by
  obtain ⟨pairs, paired, rest⟩ := (Attempt.bind_eq_ok_iff _ _ _).mp listed
  obtain rfl : pairs.filter (fun pair => 0 < pair.2) = values := Except.ok.inj rest
  rw [List.mem_filter, Attempt.mem_mapM _ _ _ paired]
  simp only [List.mem_range, Attempt.bind_eq_ok_iff, pure, Except.pure, Except.ok.injEq,
    Prod.mk.injEq, decide_eq_true_eq]
  constructor
  · rintro ⟨⟨value, inside, q, found, rfl, rfl⟩, positive⟩
    exact ⟨inside, found, positive⟩
  · rintro ⟨inside, found, positive⟩
    exact ⟨⟨output, inside, p, found, rfl, rfl⟩, positive⟩

/-- The values that are listed for positive probabilities are different and in range. -/
theorem sublist_of_positiveValues [Zero α] [LT α] [DecidableLT α] {ε : Type} {range : Nat}
    {probability : Nat → Attempt ε α} {values : List (Nat × α)}
    (listed : positiveValues range probability = .ok values) :
    (values.map Prod.fst).Sublist (List.range range) := by
  obtain ⟨pairs, paired, rest⟩ := (Attempt.bind_eq_ok_iff _ _ _).mp listed
  obtain rfl := Except.ok.inj rest
  have numbered : pairs.map Prod.fst = List.range range := by
    rw [Attempt.map_of_mapM _ _ _ paired id Prod.fst, List.map_id]
    intro value pair given
    obtain ⟨p, -, same⟩ := (Attempt.bind_eq_ok_iff _ _ _).mp given
    rw [← Except.ok.inj same]
    rfl
  rw [← numbered]
  exact List.filter_sublist.map Prod.fst

/-- Known probabilities are listed in order, without those that are not positive. -/
theorem positiveValues_eq [Zero α] [LT α] [DecidableLT α] {ε : Type} {range : Nat}
    {probability : Nat → Attempt ε α} {p : Nat → α}
    (known : ∀ value < range, probability value = .ok (p value)) :
    positiveValues range probability
      = .ok (((List.range range).map fun value => (value, p value)).filter (0 < ·.2)) := by
  refine (Attempt.bind_eq_ok_iff _ _ _).mpr ⟨_, Attempt.mapM_eq_map _ _ _ ?_, rfl⟩
  intro value member
  exact (Attempt.bind_eq_ok_iff _ _ _).mpr ⟨_, known value (List.mem_range.mp member), rfl⟩

section

variable [Zero α] [Add α] [Div α] [BEq α] [Scalar α]

/-- The probability with which a question is answered by an output. -/
def chance (box : Box α) (answers : List Answer) (question : Question) (output : Nat) :
    Attempt QueryError α :=
  if answers.isEmpty then box.reducedProb question.party question.input output
  else
    box.normalisedProb (queryInput box.partyCount answers question)
      (queryOutput box.partyCount answers question output)
      (queryPending box.partyCount answers question)

variable [LT α] [DecidableLT α]

/-- The possible answers to a question, with their weights. -/
def weights (box : Box α) (answers : List Answer) (question : Question) :
    Attempt QueryError (List (Nat × α)) := do
  let values ← positiveValues box.outputRange (chance box answers question)
  if answers.isEmpty then
    let total := rowTotal (values.map Prod.snd)
    pure (values.map fun (output, p) => (output, p / total))
  else pure values

/-- A question can be answered by an output, which has this weight. -/
def Discloses (box : Box α) (answers : List Answer) (question : Question) (output : Nat)
    (weight : α) : Prop :=
  ∃ values, weights box answers question = .ok values ∧ (output, weight) ∈ values

/-- The answers to a question are the values of the range with positive probability. -/
theorem exists_discloses_iff {box : Box α} {answers : List Answer} {question : Question}
    {values : List (Nat × α)} (listed : weights box answers question = .ok values)
    (output : Nat) :
    (∃ weight, (output, weight) ∈ values)
      ↔ output < box.outputRange ∧ ∃ p, chance box answers question output = .ok p ∧ 0 < p := by
  obtain ⟨possible, positive, rest⟩ := (Attempt.bind_eq_ok_iff _ _ _).mp listed
  have inPossible : (∃ p, (output, p) ∈ possible)
      ↔ output < box.outputRange ∧ ∃ p, chance box answers question output = .ok p ∧ 0 < p := by
    simp only [mem_positiveValues positive, exists_and_left]
  rw [← inPossible]
  split at rest
  · obtain rfl := Except.ok.inj rest
    simp
  · obtain rfl := Except.ok.inj rest
    rfl

/-- An answer that can be given is a value of the range. -/
theorem Discloses.lt {box : Box α} {answers : List Answer} {question : Question} {output : Nat}
    {weight : α} (discloses : Discloses box answers question output weight) :
    output < box.outputRange := by
  obtain ⟨values, listed, member⟩ := discloses
  exact ((exists_discloses_iff listed output).mp ⟨weight, member⟩).1

end

end Nonlocal.Disclosure
