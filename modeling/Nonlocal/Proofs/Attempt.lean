import Mathlib.Algebra.BigOperators.Group.List.Basic
import Mathlib.Data.List.Forall2
import Nonlocal.Word

/-!
# Computations that succeed

A computation made of several attempts succeeds exactly when each of them does.
The laws here take a success apart: a sequence of two, the same attempt on every
element of a list, the attempts that leave some elements out, and a run over
consecutive numbers. A value that is known in advance makes the whole
computation an ordinary map or fold. A failure is that of one part, after the
parts before it have succeeded.
-/

namespace Nonlocal.Attempt

variable {ε σ α β : Type}

/-- A sequence succeeds exactly when its first part does and the second part
succeeds on the value of the first. -/
theorem bind_eq_ok_iff (first : Except ε α) (next : α → Except ε β) (result : β) :
    first >>= next = .ok result ↔ ∃ value, first = .ok value ∧ next value = .ok result := by
  cases first with
  | error stop => simp [bind, Except.bind]
  | ok value => simp [bind, Except.bind]

/-- A sequence fails exactly when its first part does, or the second part fails on the value
of the first. -/
theorem bind_eq_error_iff (first : Except ε α) (next : α → Except ε β) (error : ε) :
    first >>= next = .error error
      ↔ first = .error error ∨ ∃ value, first = .ok value ∧ next value = .error error := by
  cases first with
  | error stop => simp [bind, Except.bind]
  | ok value => simp [bind, Except.bind]

/-- A sequence whose first part has a value goes on from there to a result. -/
theorem exists_bind {first : Except ε α} {next : α → Except ε β} {value : α}
    (done : first = .ok value) (goesOn : ∃ result, next value = .ok result) :
    ∃ result, first >>= next = .ok result := by
  obtain ⟨result, ended⟩ := goesOn
  exact ⟨result, (bind_eq_ok_iff first next result).mpr ⟨value, done, ended⟩⟩

/-- A value is left behind. -/
@[simp] theorem toOption_ok (value : α) : (Except.ok value : Except ε α).toOption = some value :=
  rfl

/-- An error leaves nothing behind. -/
@[simp] theorem toOption_error (error : ε) : (Except.error error : Except ε α).toOption = none :=
  rfl

/-- A value that is returned is left behind. -/
@[simp] theorem toOption_pure (value : α) : (pure value : Except ε α).toOption = some value := rfl

/-- A sequence leaves behind what its second part does on the value of the first. -/
@[simp] theorem toOption_bind (first : Except ε α) (next : α → Except ε β) :
    (first >>= next).toOption = first.toOption.bind fun value => (next value).toOption := by
  cases first <;> rfl

/-- A computation that leaves a value behind ends in that value. -/
theorem eq_ok_of_toOption {attempt : Except ε α} {value : α}
    (succeeds : attempt.toOption = some value) : attempt = .ok value := by
  cases attempt with
  | error stop => simp at succeeds
  | ok other => simpa using succeeds

/-- A computation that leaves something behind ends in a value. -/
theorem exists_eq_ok {attempt : Except ε α} (succeeds : attempt.toOption.isSome = true) :
    ∃ value, attempt = .ok value := by
  obtain ⟨value, isValue⟩ := Option.isSome_iff_exists.mp succeeds
  exact ⟨value, eq_ok_of_toOption isValue⟩

/-- A restated outcome is a value exactly when it was that value before. -/
theorem mapRefusal_eq_ok_iff {δ : Type} (restate : ε → δ) (attempt : Attempt ε α) (value : α) :
    attempt.mapRefusal restate = .ok value ↔ attempt = .ok value := by
  cases attempt with
  | ok other => simp [mapRefusal]
  | error stop => cases stop <;> simp [mapRefusal, refuse, fail]

/-- A refusal that has been restated was a refusal before. -/
theorem exists_refused_of_mapRefusal {δ : Type} {restate : ε → δ} {attempt : Attempt ε α}
    {error : δ} (refused : attempt.mapRefusal restate = .error (.refused error)) :
    ∃ other, attempt = .error (.refused other) ∧ error = restate other := by
  cases attempt with
  | ok value => cases refused
  | error stop =>
    cases stop with
    | refused other => exact ⟨other, rfl, (Stop.refused.inj (Except.error.inj refused)).symm⟩
    | fault fault => cases refused

/-- A result is the same value when it is read as an attempt. -/
theorem ofExcept_eq_ok_iff (result : Except ε α) (value : α) :
    ofExcept result = .ok value ↔ result = .ok value := by
  cases result <;> simp [ofExcept, refuse]

/-- A result is refused with the same error when it is read as an attempt. -/
theorem ofExcept_eq_refused_iff (result : Except ε α) (error : ε) :
    ofExcept result = .error (.refused error) ↔ result = .error error := by
  cases result <;> simp [ofExcept, refuse]

/-- Reading an element succeeds exactly at an index inside the list. -/
theorem get_eq_ok_iff (elements : List α) (index : Nat) (element : α) :
    (get elements index : Attempt ε α) = .ok element ↔ elements[index]? = some element := by
  unfold get
  cases elements[index]? <;> simp [fail]

/-- The attempts on a list succeed together exactly when each one gives the
result at its place. -/
theorem mapM_eq_ok_iff (attempt : α → Except ε β) (elements : List α) (results : List β) :
    elements.mapM attempt = .ok results
      ↔ List.Forall₂ (fun element result => attempt element = .ok result) elements results := by
  induction elements generalizing results with
  | nil => cases results <;> simp [pure, Except.pure]
  | cons element rest inductionHypothesis =>
    rw [List.mapM_cons]
    simp only [bind_eq_ok_iff, inductionHypothesis, List.forall₂_cons_left_iff, pure,
      Except.pure, Except.ok.injEq]
    constructor
    · rintro ⟨value, succeeded, values, related, rfl⟩
      exact ⟨value, values, succeeded, related, rfl⟩
    · rintro ⟨value, values, succeeded, related, rfl⟩
      exact ⟨value, succeeded, values, related, rfl⟩

/-- Attempts whose values are known in advance only map the list. -/
theorem mapM_eq_map (attempt : α → Except ε β) (value : α → β) (elements : List α)
    (known : ∀ element ∈ elements, attempt element = .ok (value element)) :
    elements.mapM attempt = .ok (elements.map value) := by
  rw [mapM_eq_ok_iff]
  induction elements with
  | nil => exact .nil
  | cons element rest inductionHypothesis =>
    refine .cons (known element List.mem_cons_self) (inductionHypothesis ?_)
    exact fun later member => known later (List.mem_cons_of_mem element member)

/-- Attempts that may leave elements out succeed exactly when each gives an
outcome; the results are the outcomes that are there. -/
theorem filterMapM_eq_ok_iff (attempt : α → Except ε (Option β)) (elements : List α)
    (results : List β) :
    elements.filterMapM attempt = .ok results
      ↔ ∃ outcomes, elements.mapM attempt = .ok outcomes ∧ results = outcomes.filterMap id := by
  induction elements generalizing results with
  | nil => simp [pure, Except.pure, eq_comm]
  | cons element rest inductionHypothesis =>
    rw [List.filterMapM_cons, List.mapM_cons]
    simp only [bind_eq_ok_iff, pure, Except.pure, Except.ok.injEq]
    constructor
    · rintro ⟨outcome, succeeded, later⟩
      cases outcome with
      | none =>
        obtain ⟨outcomes, related, rfl⟩ := (inductionHypothesis results).mp later
        exact ⟨none :: outcomes, ⟨none, succeeded, outcomes, related, rfl⟩, by simp⟩
      | some value =>
        simp only [bind_eq_ok_iff, Except.ok.injEq] at later
        obtain ⟨values, succeeding, rfl⟩ := later
        obtain ⟨outcomes, related, rfl⟩ := (inductionHypothesis values).mp succeeding
        exact ⟨some value :: outcomes, ⟨some value, succeeded, outcomes, related, rfl⟩, by simp⟩
    · rintro ⟨outcomes, ⟨outcome, succeeded, later, related, rfl⟩, rfl⟩
      refine ⟨outcome, succeeded, ?_⟩
      have succeeding : rest.filterMapM attempt = .ok (later.filterMap id) :=
        (inductionHypothesis _).mpr ⟨later, related, rfl⟩
      cases outcome <;> simp [succeeding, bind, Except.bind]

/-- If the attempt on each element succeeds, the attempts succeed together. -/
theorem exists_mapM (attempt : α → Except ε β) (elements : List α)
    (each : ∀ element ∈ elements, ∃ result, attempt element = .ok result) :
    ∃ results, elements.mapM attempt = .ok results := by
  induction elements with
  | nil => exact ⟨[], rfl⟩
  | cons element rest inductionHypothesis =>
    obtain ⟨result, first⟩ := each element List.mem_cons_self
    obtain ⟨results, later⟩ := inductionHypothesis fun other member =>
      each other (List.mem_cons_of_mem element member)
    exact ⟨result :: results, by rw [List.mapM_cons, first, later]; rfl⟩

/-- The same for attempts that may leave elements out. -/
theorem exists_filterMapM (attempt : α → Except ε (Option β)) (elements : List α)
    (each : ∀ element ∈ elements, ∃ outcome, attempt element = .ok outcome) :
    ∃ results, elements.filterMapM attempt = .ok results := by
  obtain ⟨outcomes, given⟩ := exists_mapM attempt elements each
  exact ⟨_, (filterMapM_eq_ok_iff _ _ _).mpr ⟨outcomes, given, rfl⟩⟩

/-- What attempts that may leave elements out come to, element by element: the
results are exactly the values that some element gives. -/
theorem mem_filterMapM (attempt : α → Except ε (Option β)) (elements : List α)
    (results : List β) (succeeded : elements.filterMapM attempt = .ok results) (result : β) :
    result ∈ results ↔ ∃ element ∈ elements, attempt element = .ok (some result) := by
  obtain ⟨outcomes, related, rfl⟩ := (filterMapM_eq_ok_iff _ _ _).mp succeeded
  rw [mapM_eq_ok_iff] at related
  simp only [List.mem_filterMap, id_eq, exists_eq_right]
  clear succeeded
  induction related with
  | nil => simp
  | @cons element outcome rest later given _ inductionHypothesis =>
    simp only [List.mem_cons, inductionHypothesis, exists_eq_or_imp, given, Except.ok.injEq]
    exact or_congr eq_comm Iff.rfl

/-- Attempts on what elements stand for are attempts on the elements. -/
theorem filterMapM_map {γ : Type} (attempt : β → Except ε (Option γ)) (source : α → β)
    (elements : List α) :
    (elements.map source).filterMapM attempt
      = elements.filterMapM fun element => attempt (source element) := by
  induction elements with
  | nil => rfl
  | cons element rest inductionHypothesis =>
    rw [List.map_cons, List.filterMapM_cons, List.filterMapM_cons, inductionHypothesis]

/-- Attempts on the lists that elements stand for, put together, are attempts on one
long list. -/
theorem filterMapM_flatMap {γ : Type} (attempt : β → Except ε (Option γ)) (parts : α → List β)
    (elements : List α) (results : List (List γ))
    (succeeded : elements.mapM (fun element => (parts element).filterMapM attempt) = .ok results) :
    (elements.flatMap parts).filterMapM attempt = .ok results.flatten := by
  rw [mapM_eq_ok_iff] at succeeded
  induction succeeded with
  | nil => rfl
  | @cons element values rest later given _ inductionHypothesis =>
    obtain ⟨first, firstGiven, rfl⟩ := (filterMapM_eq_ok_iff _ _ _).mp given
    obtain ⟨second, secondGiven, same⟩ := (filterMapM_eq_ok_iff _ _ _).mp inductionHypothesis
    rw [filterMapM_eq_ok_iff, List.flatMap_cons]
    refine ⟨first ++ second, ?_, ?_⟩
    · rw [mapM_eq_ok_iff] at firstGiven secondGiven ⊢
      exact List.rel_append firstGiven secondGiven
    · rw [List.filterMap_append, List.flatten_cons, same]

/-- What holds between the values of any two different elements holds between any two
of the results. -/
theorem pairwise_filterMapM {related : β → β → Prop} (attempt : α → Except ε (Option β))
    (elements : List α) (results : List β) (succeeded : elements.filterMapM attempt = .ok results)
    (distinct : elements.Nodup)
    (apart : ∀ first ∈ elements, ∀ second ∈ elements, first ≠ second → ∀ left right,
      attempt first = .ok (some left) → attempt second = .ok (some right) → related left right) :
    results.Pairwise related := by
  induction elements generalizing results with
  | nil =>
    obtain rfl : [] = results := by simpa [pure, Except.pure] using succeeded
    exact .nil
  | cons element rest inductionHypothesis =>
    obtain ⟨outcomes, given, rfl⟩ := (filterMapM_eq_ok_iff _ _ _).mp succeeded
    rw [mapM_eq_ok_iff, List.forall₂_cons_left_iff] at given
    obtain ⟨outcome, later, first, others, rfl⟩ := given
    obtain ⟨fresh, restDistinct⟩ := List.nodup_cons.mp distinct
    have succeeding : rest.filterMapM attempt = .ok (later.filterMap id) :=
      (filterMapM_eq_ok_iff _ _ _).mpr ⟨later, (mapM_eq_ok_iff _ _ _).mpr others, rfl⟩
    have ordered : (later.filterMap id).Pairwise related :=
      inductionHypothesis _ succeeding restDistinct fun one oneMember two twoMember =>
        apart one (List.mem_cons_of_mem _ oneMember) two (List.mem_cons_of_mem _ twoMember)
    cases outcome with
    | none => simpa using ordered
    | some value =>
      have kept : (some value :: later).filterMap id = value :: later.filterMap id := rfl
      rw [kept, List.pairwise_cons]
      refine ⟨fun other member => ?_, ordered⟩
      obtain ⟨source, sourceMember, gives⟩ :=
        (mem_filterMapM _ _ _ succeeding other).mp member
      have different : element ≠ source := by
        rintro rfl
        exact fresh sourceMember
      exact apart element List.mem_cons_self source (List.mem_cons_of_mem _ sourceMember)
        different value other first gives

/-- Every result of attempts on a list is the value of one of its elements. -/
theorem mem_mapM (attempt : α → Except ε β) (elements : List α) (results : List β)
    (succeeded : elements.mapM attempt = .ok results) (result : β) :
    result ∈ results ↔ ∃ element ∈ elements, attempt element = .ok result := by
  rw [mapM_eq_ok_iff] at succeeded
  induction succeeded with
  | nil => simp
  | @cons element value rest later given _ inductionHypothesis =>
    simp only [List.mem_cons, inductionHypothesis, exists_eq_or_imp, given, Except.ok.injEq]
    exact or_congr eq_comm Iff.rfl

/-- What the results of attempts tell of their elements is told of all elements in turn. -/
theorem map_of_mapM {γ : Type} (attempt : α → Except ε β) (elements : List α) (results : List β)
    (succeeded : elements.mapM attempt = .ok results) (source : α → γ) (told : β → γ)
    (same : ∀ element result, attempt element = .ok result → told result = source element) :
    results.map told = elements.map source := by
  rw [mapM_eq_ok_iff] at succeeded
  induction succeeded with
  | nil => rfl
  | cons given _ inductionHypothesis =>
    rw [List.map_cons, List.map_cons, same _ _ given, inductionHypothesis]

/-- If attempts leave elements out, it is told of some elements in turn. -/
theorem sublist_of_filterMapM {γ : Type} (attempt : α → Except ε (Option β)) (elements : List α)
    (results : List β) (succeeded : elements.filterMapM attempt = .ok results) (source : α → γ)
    (told : β → γ)
    (same : ∀ element result, attempt element = .ok (some result) → told result = source element) :
    (results.map told).Sublist (elements.map source) := by
  obtain ⟨outcomes, related, rfl⟩ := (filterMapM_eq_ok_iff _ _ _).mp succeeded
  rw [mapM_eq_ok_iff] at related
  clear succeeded
  induction related with
  | nil => exact .slnil
  | @cons element outcome rest later given _ inductionHypothesis =>
    cases outcome with
    | none => exact inductionHypothesis.cons _
    | some result =>
      have kept : (some result :: later).filterMap id = result :: later.filterMap id := rfl
      rw [kept, List.map_cons, List.map_cons, same _ _ given]
      exact inductionHypothesis.cons_cons _

/-- If attempts on a list succeed together, the attempt on each element does. -/
theorem succeeds_of_mapM (attempt : α → Except ε β) (elements : List α) (results : List β)
    (succeeded : elements.mapM attempt = .ok results) (element : α) (member : element ∈ elements) :
    ∃ result, attempt element = .ok result := by
  rw [mapM_eq_ok_iff] at succeeded
  induction succeeded with
  | nil => simp at member
  | cons given _ inductionHypothesis =>
    rcases List.mem_cons.mp member with rfl | later
    · exact ⟨_, given⟩
    · exact inductionHypothesis later

/-- If attempts that may leave elements out succeed together, the attempt on each
element does. -/
theorem succeeds_of_filterMapM (attempt : α → Except ε (Option β)) (elements : List α)
    (results : List β) (succeeded : elements.filterMapM attempt = .ok results) (element : α)
    (member : element ∈ elements) : ∃ outcome, attempt element = .ok outcome := by
  obtain ⟨outcomes, given, -⟩ := (filterMapM_eq_ok_iff _ _ _).mp succeeded
  exact succeeds_of_mapM _ _ _ given element member

/-- A fold whose steps each add a value gives the sum of the values. -/
theorem foldlM_add [AddMonoid σ] (step : σ → α → Except ε σ) (value : α → σ) (elements : List α)
    (start : σ)
    (known : ∀ element ∈ elements, ∀ total, step total element = .ok (total + value element)) :
    elements.foldlM step start = .ok (start + (elements.map value).sum) := by
  induction elements generalizing start with
  | nil => simp [pure, Except.pure]
  | cons element rest inductionHypothesis =>
    rw [List.foldlM_cons, known element List.mem_cons_self, List.map_cons, List.sum_cons,
      ← add_assoc]
    exact inductionHypothesis _ fun later member =>
      known later (List.mem_cons_of_mem element member)

/-- The same for a fold that also counts its steps and may fail when the count comes to
a limit. -/
theorem foldlM_add_count [AddMonoid σ] (step : σ × Nat → α → Except ε (σ × Nat)) (value : α → σ)
    (limit : Nat) (elements : List α) (start : σ) (count : Nat)
    (known : ∀ element ∈ elements, ∀ total count, count + 1 < limit →
      step (total, count) element = .ok (total + value element, count + 1))
    (room : count + elements.length < limit) :
    elements.foldlM step (start, count)
      = .ok (start + (elements.map value).sum, count + elements.length) := by
  induction elements generalizing start count with
  | nil => simp [pure, Except.pure]
  | cons element rest inductionHypothesis =>
    rw [List.length_cons] at room
    rw [List.foldlM_cons, known element List.mem_cons_self start count (by omega), List.map_cons,
      List.sum_cons, ← add_assoc, List.length_cons, Nat.add_comm rest.length, ← Nat.add_assoc]
    exact inductionHypothesis _ _
      (fun later member => known later (List.mem_cons_of_mem element member)) (by omega)

/-- A fold in which no step fails comes to its end. -/
theorem exists_foldlM (step : σ → α → Except ε σ) (elements : List α) (start : σ)
    (goesOn : ∀ element ∈ elements, ∀ state, ∃ next, step state element = .ok next) :
    ∃ result, elements.foldlM step start = .ok result := by
  induction elements generalizing start with
  | nil => exact ⟨start, rfl⟩
  | cons element rest inductionHypothesis =>
    obtain ⟨next, stepped⟩ := goesOn element List.mem_cons_self start
    rw [List.foldlM_cons, stepped]
    exact inductionHypothesis next fun later member =>
      goesOn later (List.mem_cons_of_mem element member)

/-- So does one that also counts its steps, if no step fails below the limit of the
count. -/
theorem exists_foldlM_count (step : σ × Nat → α → Except ε (σ × Nat)) (limit : Nat)
    (elements : List α) (start : σ) (count : Nat)
    (goesOn : ∀ element ∈ elements, ∀ total count, count + 1 < limit →
      ∃ next, step (total, count) element = .ok (next, count + 1))
    (room : count + elements.length < limit) :
    ∃ result, elements.foldlM step (start, count) = .ok result := by
  induction elements generalizing start count with
  | nil => exact ⟨(start, count), rfl⟩
  | cons element rest inductionHypothesis =>
    rw [List.length_cons] at room
    obtain ⟨next, stepped⟩ := goesOn element List.mem_cons_self start count (by omega)
    rw [List.foldlM_cons, stepped]
    exact inductionHypothesis next (count + 1)
      (fun later member => goesOn later (List.mem_cons_of_mem element member)) (by omega)

/-- Folds whose steps agree on the elements come to the same end. -/
theorem foldlM_congr {left right : σ → α → Except ε σ} {elements : List α} (start : σ)
    (agree : ∀ element ∈ elements, ∀ state, left state element = right state element) :
    elements.foldlM left start = elements.foldlM right start := by
  induction elements generalizing start with
  | nil => rfl
  | cons element rest inductionHypothesis =>
    rw [List.foldlM_cons, List.foldlM_cons, agree element List.mem_cons_self]
    congr
    funext next
    exact inductionHypothesis next fun later member =>
      agree later (List.mem_cons_of_mem element member)

/-- A run over consecutive numbers is a fold over their list. -/
theorem foldValues_eq_foldlM (step : σ → Nat → Except ε σ) (count first : Nat) (state : σ) :
    foldValues step count first state = (List.range' first count).foldlM step state := by
  induction count generalizing first state with
  | zero => rfl
  | succ count inductionHypothesis =>
    rw [foldValues, List.range'_succ, List.foldlM_cons]
    cases step state first with
    | error stop => rfl
    | ok next => exact inductionHypothesis (first + 1) next

/-- A check of every element of a list passes exactly when each element does. -/
theorem forM_eq_ok_iff (check : α → Except ε Unit) (elements : List α) :
    elements.forM check = .ok () ↔ ∀ element ∈ elements, check element = .ok () := by
  induction elements with
  | nil => simp [pure, Except.pure]
  | cons element rest inductionHypothesis =>
    have inTurn : (element :: rest).forM check
        = check element >>= fun _ => rest.forM check := rfl
    rw [inTurn, bind_eq_ok_iff, List.forall_mem_cons, ← inductionHypothesis]
    exact ⟨fun ⟨_, first, later⟩ => ⟨first, later⟩, fun ⟨first, later⟩ => ⟨(), first, later⟩⟩

/-- A check of every element of a list fails exactly as one of the elements does, after all
before it have passed. -/
theorem forM_eq_error_iff (check : α → Except ε Unit) (elements : List α) (error : ε) :
    elements.forM check = .error error
      ↔ ∃ before element after, elements = before ++ element :: after
        ∧ (∀ earlier ∈ before, check earlier = .ok ()) ∧ check element = .error error := by
  induction elements with
  | nil => simp [pure, Except.pure]
  | cons element rest inductionHypothesis =>
    have inTurn : (element :: rest).forM check
        = check element >>= fun _ => rest.forM check := rfl
    rw [inTurn, bind_eq_error_iff, inductionHypothesis]
    constructor
    · rintro (failed | ⟨_, passed, before, later, after, rfl, earlier, failed⟩)
      · exact ⟨[], element, rest, rfl, by simp, failed⟩
      · exact ⟨element :: before, later, after, rfl, List.forall_mem_cons.mpr ⟨passed, earlier⟩,
          failed⟩
    · rintro ⟨before, other, after, whole, earlier, failed⟩
      cases before with
      | nil =>
        obtain ⟨rfl, rfl⟩ := List.cons.inj whole
        exact .inl failed
      | cons first before =>
        obtain ⟨rfl, rfl⟩ := List.cons.inj whole
        obtain ⟨passed, between⟩ := List.forall_mem_cons.mp earlier
        exact .inr ⟨(), passed, before, other, after, rfl, between, failed⟩

/-- A fold fails as one of its steps does. -/
theorem exists_step_of_foldlM {step : σ → α → Except ε σ} {elements : List α} {start : σ}
    {error : ε} (failed : elements.foldlM step start = .error error) :
    ∃ element ∈ elements, ∃ state, step state element = .error error := by
  induction elements generalizing start with
  | nil => cases failed
  | cons element rest inductionHypothesis =>
    rw [List.foldlM_cons, bind_eq_error_iff] at failed
    rcases failed with first | ⟨state, -, later⟩
    · exact ⟨element, List.mem_cons_self, start, first⟩
    · obtain ⟨other, member, further⟩ := inductionHypothesis later
      exact ⟨other, List.mem_cons_of_mem element member, further⟩

/-- A fold without a state only checks every element. -/
theorem foldlM_unit_eq_forM (step : Unit → α → Except ε Unit) (elements : List α) :
    elements.foldlM step () = elements.forM (step ()) := by
  induction elements with
  | nil => rfl
  | cons element rest inductionHypothesis =>
    have inTurn : (element :: rest).forM (step ())
        = step () element >>= fun _ => rest.forM (step ()) := rfl
    rw [List.foldlM_cons, inTurn, ← inductionHypothesis]

/-- A fold without a state succeeds exactly when every step does. -/
theorem foldlM_unit_eq_ok_iff (step : Unit → α → Except ε Unit) (elements : List α) :
    elements.foldlM step () = .ok () ↔ ∀ element ∈ elements, step () element = .ok () := by
  rw [foldlM_unit_eq_forM, forM_eq_ok_iff]

end Nonlocal.Attempt
