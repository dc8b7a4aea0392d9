import Nonlocal.Proofs.Tuple.Enumeration

/-!
# Computations that do not fault

An attempt answers if it ends in a value or in a refusal, so it does not step outside a
list or a word. This is weaker than success, and it holds of a computation whose parts
answer, whatever they answer: a sequence, a check of every element of a list, a run over
consecutive numbers, a visit of all tuples. Only a run that counts its steps needs more,
since the count itself has to stay a word.
-/

namespace Nonlocal.Attempt

variable {ε δ σ α β : Type}

/-- The attempt ends in a value or in a refusal. -/
def Answers (attempt : Attempt ε α) : Prop :=
  (∃ value, attempt = .ok value) ∨ ∃ error, attempt = refuse error

namespace Answers

/-- A value is an answer. -/
theorem ok (value : α) : Answers (.ok value : Attempt ε α) := .inl ⟨value, rfl⟩

/-- A refusal is an answer. -/
theorem refuse (error : ε) : Answers (Attempt.refuse error : Attempt ε α) := .inr ⟨error, rfl⟩

/-- A success is an answer. -/
theorem of_exists {attempt : Attempt ε α} (succeeds : ∃ value, attempt = .ok value) :
    attempt.Answers := .inl succeeds

/-- A result that is read as an attempt is an answer. -/
theorem ofExcept (result : Except ε α) : (Attempt.ofExcept result).Answers := by
  cases result with
  | ok value => exact ok value
  | error error => exact refuse error

/-- Restating refusals leaves an answer. -/
theorem mapRefusal {attempt : Attempt ε α} (answers : attempt.Answers) (restate : ε → δ) :
    (attempt.mapRefusal restate).Answers := by
  rcases answers with ⟨value, rfl⟩ | ⟨error, rfl⟩
  · exact ok value
  · exact refuse (restate error)

/-- A sequence answers if its first part does, and its second part does on the value of the
first. -/
theorem bind {first : Attempt ε α} {next : α → Attempt ε β} (answers : first.Answers)
    (goesOn : ∀ value, first = .ok value → (next value).Answers) :
    Answers (first >>= next) := by
  rcases answers with ⟨value, rfl⟩ | ⟨error, rfl⟩
  · exact goesOn value rfl
  · exact refuse error

/-- A fold answers if every step does. -/
theorem foldlM {step : σ → α → Attempt ε σ} {elements : List α}
    (each : ∀ element ∈ elements, ∀ state, (step state element).Answers) (start : σ) :
    Answers (elements.foldlM step start) := by
  induction elements generalizing start with
  | nil => exact ok start
  | cons element rest inductionHypothesis =>
    rw [List.foldlM_cons]
    refine bind (each element List.mem_cons_self start) fun state _ => ?_
    exact inductionHypothesis (fun later member => each later (List.mem_cons_of_mem _ member)) state

/-- A check of every element answers if each check does. -/
theorem forM {check : α → Attempt ε Unit} {elements : List α}
    (each : ∀ element ∈ elements, (check element).Answers) : Answers (elements.forM check) := by
  rw [← foldlM_unit_eq_forM (fun _ => check)]
  exact foldlM (fun element member _ => each element member) ()

/-- A run over consecutive numbers answers if every step does. -/
theorem foldValues {step : σ → Nat → Attempt ε σ} {count first : Nat}
    (each : ∀ value, first ≤ value → value < first + count → ∀ state, (step state value).Answers)
    (start : σ) : Answers (Nonlocal.foldValues step count first start) := by
  rw [foldValues_eq_foldlM]
  refine foldlM (fun value member state => ?_) start
  obtain ⟨above, below⟩ := List.mem_range'_1.mp member
  exact each value above below state

/-- A visit of all tuples answers if every step does. -/
theorem foldTuples {step : σ → List Nat → Attempt ε σ} {radix length : Nat}
    (each : ∀ digits, Tuple.Fits radix length digits → ∀ state, (step state digits).Answers)
    (start : σ) : Answers (Tuple.foldTuples radix length step start) := by
  rw [Tuple.foldTuples_eq_foldlM]
  exact foldlM (fun digits member => each digits (Tuple.mem_walk.mp member)) start

/-- A fold that counts its steps answers if every step does while the count is at most a
bound, and no step goes on from the bound.

The count of a step is the place of its element, so it is enough that the step at each
place behaves; the induction carries the number of elements that are passed. -/
theorem foldlM_count {step : σ × Nat → α → Attempt ε (σ × Nat)} {bound : Nat}
    {elements : List α} (start : σ) (passed : Nat) (room : passed ≤ bound)
    (each : ∀ place element, elements[place]? = some element → ∀ state, passed + place ≤ bound →
      (step (state, passed + place) element).Answers)
    (counts : ∀ place element, elements[place]? = some element → ∀ state next,
      step (state, passed + place) element = .ok next →
        passed + place < bound ∧ next.2 = passed + place + 1) :
    Answers (elements.foldlM step (start, passed)) := by
  induction elements generalizing start passed with
  | nil => exact ok (start, passed)
  | cons element rest inductionHypothesis =>
    rw [List.foldlM_cons]
    refine bind (each 0 element rfl start room) ?_
    rintro ⟨state, count⟩ stepped
    obtain ⟨below, rfl⟩ := counts 0 element rfl start (state, count) stepped
    have shifted (place : Nat) : passed + 1 + place = passed + (place + 1) := by omega
    refine inductionHypothesis state (passed + 1) below ?_ ?_
    · intro place later found state within
      rw [shifted] at within ⊢
      exact each (place + 1) later (by simpa using found) state within
    · intro place later found state next further
      rw [shifted] at further ⊢
      exact counts (place + 1) later (by simpa using found) state next further

end Answers

end Nonlocal.Attempt
