import Nonlocal.Proofs.Tuple.Enumeration

/-!
# Checks that settle a question

A check settles a question if it passes only where what is demanded holds, and fails
only with an error that is genuine. Checks of this kind are put together like the
programs they are made of: one after another, once for each element of a list, along a
run of numbers or a walk over tuples. What is demanded then holds everywhere, and the
error is genuine at the place where the walk stopped.
-/

namespace Nonlocal

variable {ε α : Type}

/-- A check that passes with its demand met or fails with a genuine error. -/
def Settles (result : Except ε Unit) (demanded : Prop) (genuine : ε → Prop) : Prop :=
  (result = .ok () ∧ demanded) ∨ ∃ error, result = .error error ∧ genuine error

namespace Settles

variable {result : Except ε Unit} {demanded other : Prop} {genuine shown : ε → Prop}

/-- The question may be put in other words. -/
theorem imp (settles : Settles result demanded genuine) (met : demanded → other)
    (told : ∀ error, genuine error → shown error) : Settles result other shown := by
  rcases settles with ⟨passed, holds⟩ | ⟨error, failed, isGenuine⟩
  · exact Or.inl ⟨passed, met holds⟩
  · exact Or.inr ⟨error, failed, told error isGenuine⟩

/-- What has passed meets its demand. -/
theorem demanded_of_ok (settles : Settles result demanded genuine) (passed : result = .ok ()) :
    demanded := by
  rcases settles with ⟨-, holds⟩ | ⟨error, failed, -⟩
  · exact holds
  · cases passed.symm.trans failed

/-- What cannot be reported of anything does not stop a check. -/
theorem ok_of_not_genuine (settles : Settles result demanded genuine)
    (sound : ∀ error, ¬ genuine error) : result = .ok () := by
  rcases settles with ⟨passed, -⟩ | ⟨error, -, isGenuine⟩
  · exact passed
  · exact (sound error isGenuine).elim

/-- The error that is genuine is the one that the check fails with. -/
theorem traced (settles : Settles result demanded genuine) :
    Settles result demanded fun error => result = .error error ∧ genuine error := by
  rcases settles with passed | ⟨error, failed, isGenuine⟩
  · exact Or.inl passed
  · exact Or.inr ⟨error, failed, failed, isGenuine⟩

/-- A check that passes may do so. -/
theorem pass (holds : demanded) : Settles (.ok () : Except ε Unit) demanded genuine :=
  Or.inl ⟨rfl, holds⟩

/-- A check that fails may do so. -/
theorem fail {error : ε} (isGenuine : genuine error) : Settles (.error error) demanded genuine :=
  Or.inr ⟨error, rfl, isGenuine⟩

/-- What a check is known to establish when it passes is settled with the rest. -/
theorem and_of_ok (settles : Settles result demanded genuine) (known : result = .ok () → other) :
    Settles result (demanded ∧ other) genuine := by
  rcases settles with ⟨passed, holds⟩ | failed
  · exact Or.inl ⟨passed, holds, known passed⟩
  · exact Or.inr failed

/-- A check after another may rely on what the first one has settled. -/
theorem andThen {next : Except ε Unit} (settles : Settles result demanded genuine)
    (later : demanded → Settles next other genuine) :
    Settles (result >>= fun _ => next) (demanded ∧ other) genuine := by
  rcases settles with ⟨rfl, holds⟩ | ⟨error, rfl, isGenuine⟩
  · exact (later holds).imp (fun met => ⟨holds, met⟩) fun _ isGenuine => isGenuine
  · exact Or.inr ⟨error, rfl, isGenuine⟩

/-- Checking every element in turn settles the question for all of them, and each check may
rely on what those before it have settled. -/
theorem forM_inTurn {check : α → Except ε Unit} {elements : List α} {demanded : α → Prop}
    {genuine : α → ε → Prop}
    (each : ∀ before element after, elements = before ++ element :: after →
      (∀ earlier ∈ before, demanded earlier) →
      Settles (check element) (demanded element) (genuine element)) :
    Settles (elements.forM check) (∀ element ∈ elements, demanded element)
      fun error => ∃ before element after, elements = before ++ element :: after
        ∧ (∀ earlier ∈ before, demanded earlier) ∧ genuine element error := by
  induction elements with
  | nil => exact .pass (by simp)
  | cons element rest inductionHypothesis =>
    have first := each [] element rest rfl (by simp)
    have inTurn : (element :: rest).forM check
        = check element >>= fun _ => rest.forM check := rfl
    rw [inTurn]
    rcases first with ⟨passed, holds⟩ | ⟨error, failed, isGenuine⟩
    · rw [passed]
      refine (inductionHypothesis fun before other after same earlier =>
        each (element :: before) other after (by rw [same]; rfl)
          (List.forall_mem_cons.mpr ⟨holds, earlier⟩)).imp
        (fun all => List.forall_mem_cons.mpr ⟨holds, all⟩) ?_
      rintro error ⟨before, other, after, rfl, earlier, isGenuine⟩
      exact ⟨element :: before, other, after, rfl, List.forall_mem_cons.mpr ⟨holds, earlier⟩,
        isGenuine⟩
    · rw [failed]
      exact .fail ⟨[], element, rest, rfl, by simp, isGenuine⟩

/-- If no check needs those before it, the error is genuine for one of the elements. -/
theorem forM {check : α → Except ε Unit} {elements : List α} {demanded : α → Prop}
    {genuine : α → ε → Prop}
    (each : ∀ element ∈ elements, Settles (check element) (demanded element) (genuine element)) :
    Settles (elements.forM check) (∀ element ∈ elements, demanded element)
      fun error => ∃ element ∈ elements, genuine element error := by
  refine (forM_inTurn fun before element after same _ =>
    each element (by rw [same]; simp)).imp (fun all => all) ?_
  rintro error ⟨before, element, after, rfl, -, isGenuine⟩
  exact ⟨element, by simp, isGenuine⟩

/-- The same for a check that is told the place of each element. -/
theorem forM_zipIdx {check : α × Nat → Except ε Unit} {elements : List α} {demanded : α → Prop}
    {genuine : α → Nat → ε → Prop}
    (each : ∀ place element, elements[place]? = some element →
      Settles (check (element, place)) (demanded element) (genuine element place)) :
    Settles (elements.zipIdx.forM check) (∀ element ∈ elements, demanded element)
      fun error => ∃ place element, elements[place]? = some element
        ∧ genuine element place error := by
  have settled : Settles (elements.zipIdx.forM check)
      (∀ entry ∈ elements.zipIdx, demanded entry.1)
      fun error => ∃ entry ∈ elements.zipIdx, genuine entry.1 entry.2 error :=
    forM fun entry member => each entry.2 entry.1 (List.mem_zipIdx_iff_getElem?.mp member)
  refine settled.imp (fun all element member => ?_) ?_
  · obtain ⟨place, found⟩ := List.mem_iff_getElem?.mp member
    exact all (element, place) (List.mem_zipIdx_iff_getElem?.mpr found)
  · rintro error ⟨⟨element, place⟩, member, isGenuine⟩
    exact ⟨place, element, List.mem_zipIdx_iff_getElem?.mp member, isGenuine⟩

/-- If the places are told by the errors themselves, nothing else need be known of them. -/
theorem forM_zipIdx_of_each {check : α × Nat → Except ε Unit} {elements : List α}
    (each : ∀ place element, elements[place]? = some element →
      Settles (check (element, place)) True genuine) :
    Settles (elements.zipIdx.forM check) True genuine :=
  (forM_zipIdx each).imp (fun _ => trivial) fun _ ⟨_, _, _, isGenuine⟩ => isGenuine

/-- A run over consecutive numbers settles the question for each of them. -/
theorem foldValues {step : Unit → Nat → Except ε Unit} {count first : Nat}
    {demanded : Nat → Prop} {genuine : Nat → ε → Prop}
    (each : ∀ value, first ≤ value → value < first + count →
      Settles (step () value) (demanded value) (genuine value)) :
    Settles (foldValues step count first ()) (∀ value, first ≤ value → value < first + count →
        demanded value)
      fun error => ∃ value, first ≤ value ∧ value < first + count ∧ genuine value error := by
  rw [Attempt.foldValues_eq_foldlM, Attempt.foldlM_unit_eq_forM]
  have settled : Settles ((List.range' first count).forM (step ()))
      (∀ value ∈ List.range' first count, demanded value)
      fun error => ∃ value ∈ List.range' first count, genuine value error :=
    forM fun value member =>
      each value (List.mem_range'_1.mp member).1 (List.mem_range'_1.mp member).2
  simpa only [List.mem_range'_1, and_imp, and_assoc] using settled

/-- A walk over all tuples settles the question for each of them. -/
theorem foldTuples {step : Unit → List Nat → Except ε Unit} {radix length : Nat}
    {demanded : List Nat → Prop} {genuine : List Nat → ε → Prop}
    (each : ∀ digits, Tuple.Fits radix length digits →
      Settles (step () digits) (demanded digits) (genuine digits)) :
    Settles (Tuple.foldTuples radix length step ())
      (∀ digits, Tuple.Fits radix length digits → demanded digits)
      fun error => ∃ digits, Tuple.Fits radix length digits ∧ genuine digits error := by
  rw [Tuple.foldTuples_eq_foldlM, Attempt.foldlM_unit_eq_forM]
  have settled : Settles ((Tuple.walk radix length).forM (step ()))
      (∀ digits ∈ Tuple.walk radix length, demanded digits)
      fun error => ∃ digits ∈ Tuple.walk radix length, genuine digits error :=
    forM fun digits member => each digits (Tuple.mem_walk.mp member)
  simpa only [Tuple.mem_walk] using settled

/-- A result that can only be a value or a refusal settles what it settles as an attempt. -/
theorem ofExcept {result : Except ε Unit} {genuine : ε → Prop}
    (settles : Settles result demanded genuine) :
    Settles (Attempt.ofExcept result) demanded
      fun stop => ∃ error, stop = .refused error ∧ genuine error := by
  rcases settles with ⟨rfl, holds⟩ | ⟨error, rfl, isGenuine⟩
  · exact Or.inl ⟨rfl, holds⟩
  · exact Or.inr ⟨.refused error, rfl, error, rfl, isGenuine⟩

end Settles

end Nonlocal
