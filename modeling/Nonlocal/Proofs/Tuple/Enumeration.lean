import Mathlib.Data.List.Nodup
import Mathlib.Data.List.Range
import Nonlocal.Proofs.Attempt
import Nonlocal.Tuple.Walk

/-!
# The walk meets every tuple once

The walk over the tuples of a length is described by its first digit: for each
value in turn it goes through the walk over the remaining digits. From this
follow which tuples are met, that none is met twice, and how a tuple that is
visited by one part of the walk relates to its place in the whole.
-/

namespace Nonlocal.Tuple

/-- A tuple of a length with all digits below the radix. -/
def Fits (radix length : Nat) (digits : List Nat) : Prop :=
  digits.length = length ∧ ∀ digit ∈ digits, digit < radix

/-- A tuple fits exactly when its first digit and its rest do. -/
theorem fits_cons {radix length digit : Nat} {rest : List Nat} :
    Fits radix (length + 1) (digit :: rest) ↔ digit < radix ∧ Fits radix length rest := by
  simp only [Fits, List.length_cons, Nat.add_right_cancel_iff, List.forall_mem_cons]
  exact and_left_comm

/-- In a positive radix the walk starts at the all-zero tuple. -/
theorem walk_eq_walkFrom {radix : Nat} (positive : 0 < radix) (length : Nat) :
    walk radix length = walkFrom radix (List.replicate length 0) := by
  simp [walk, first?, Nat.ne_of_gt positive]

/-- The walk from a tuple without a successor is that tuple alone. -/
theorem walkFrom_last {radix : Nat} {digits : List Nat} (ended : next? radix digits = none) :
    walkFrom radix digits = [digits] := by
  rw [walkFrom]
  split
  · rfl
  · simp_all

/-- The walk from a tuple goes on from its successor. -/
theorem walkFrom_step {radix : Nat} {digits following : List Nat}
    (advanced : next? radix digits = some following) :
    walkFrom radix digits = digits :: walkFrom radix following := by
  rw [walkFrom]
  split
  · simp_all
  · next other same =>
    cases same.symm.trans advanced
    rfl

/-- From a tuple the walk first ends the walk over the later digits, and then
goes through all of these once for each greater first digit.

The induction follows the steps of the walk. A step inside the later digits
keeps the first one; where they have no room, the first digit is raised and the
later ones start again at zero. -/
theorem walkFrom_cons (radix digit : Nat) (rest : List Nat) :
    walkFrom radix (digit :: rest)
      = (walkFrom radix rest).map (digit :: ·)
        ++ (List.range' (digit + 1) (radix - 1 - digit)).flatMap
            fun later => (walk radix rest.length).map (later :: ·) := by
  generalize whole : digit :: rest = digits
  induction digits using walkFrom.induct radix generalizing digit rest with
  | case1 digits ended =>
    subst whole
    rw [walkFrom_last ended]
    simp only [next?] at ended
    split at ended
    · cases ended
    · next tailEnded =>
      split at ended
      · cases ended
      · next full =>
        have noMore : radix - 1 - digit = 0 := by omega
        simp [walkFrom_last tailEnded, noMore]
  | case2 digits following advanced inductionHypothesis =>
    subst whole
    rw [walkFrom_step advanced]
    simp only [next?] at advanced
    split at advanced
    · next tail stepped =>
      cases advanced
      rw [inductionHypothesis digit tail rfl, walkFrom_step stepped, next?_length stepped]
      simp
    · next tailEnded =>
      split at advanced
      · next room =>
        cases advanced
        have zeros : (rest.map fun _ => 0) = List.replicate rest.length 0 := by simp
        have more : radix - 1 - digit = (radix - 1 - (digit + 1)) + 1 := by omega
        rw [inductionHypothesis (digit + 1) _ rfl, walkFrom_last tailEnded, more,
          List.range'_succ, zeros, ← walk_eq_walkFrom (by omega : 0 < radix)]
        simp
      · cases advanced

/-- The only tuple without digits is the empty one. -/
theorem walk_zero (radix : Nat) : walk radix 0 = [[]] := by
  simp [walk, first?, walkFrom_last (show next? radix [] = none from rfl)]

/-- The walk goes through the walk over the later digits once for each first
digit, in ascending order. -/
theorem walk_succ (radix length : Nat) :
    walk radix (length + 1)
      = (List.range radix).flatMap fun digit => (walk radix length).map (digit :: ·) := by
  rcases Nat.eq_zero_or_pos radix with rfl | positive
  · simp [walk, first?]
  · obtain ⟨below, rfl⟩ : ∃ below, radix = below + 1 := ⟨radix - 1, by omega⟩
    rw [walk_eq_walkFrom positive, List.replicate_succ, walkFrom_cons,
      ← walk_eq_walkFrom positive, List.range_eq_range', List.range'_succ]
    simp

/-- The walk meets exactly the tuples of its length with digits below its radix. -/
theorem mem_walk {radix length : Nat} {digits : List Nat} :
    digits ∈ walk radix length ↔ Fits radix length digits := by
  induction length generalizing digits with
  | zero =>
    rw [walk_zero, List.mem_singleton, Fits, List.length_eq_zero_iff]
    constructor
    · rintro rfl
      exact ⟨rfl, by simp⟩
    · exact fun fits => fits.1
  | succ length inductionHypothesis =>
    rw [walk_succ]
    simp only [List.mem_flatMap, List.mem_range, List.mem_map, inductionHypothesis]
    constructor
    · rintro ⟨digit, inside, rest, fits, rfl⟩
      exact fits_cons.mpr ⟨inside, fits⟩
    · intro fits
      cases digits with
      | nil => exact absurd fits.1 (by simp)
      | cons digit rest =>
        obtain ⟨inside, restFits⟩ := fits_cons.mp fits
        exact ⟨digit, inside, rest, restFits, rfl⟩

/-- No tuple is met twice: tuples with different first digits differ, and the
others come from one walk over the later digits. -/
theorem nodup_walk (radix length : Nat) : (walk radix length).Nodup := by
  induction length with
  | zero => simp [walk_zero]
  | succ length inductionHypothesis =>
    rw [walk_succ, List.nodup_flatMap]
    refine ⟨fun digit _ => inductionHypothesis.map fun _ _ same => (List.cons.inj same).2, ?_⟩
    refine (List.nodup_range (n := radix)).imp ?_
    intro first second different digits inFirst inSecond
    obtain ⟨_, _, rfl⟩ := List.mem_map.mp inFirst
    obtain ⟨_, _, same⟩ := List.mem_map.mp inSecond
    exact different (List.cons.inj same).1.symm

/-- There are as many tuples as powers of the radix say. -/
theorem length_walk (radix length : Nat) : (walk radix length).length = total radix length := by
  induction length with
  | zero => simp [walk_zero, total_zero]
  | succ length inductionHypothesis =>
    rw [walk_succ, total_succ, Nat.mul_comm]
    simp [List.length_flatMap, inductionHypothesis]

section

variable {ε σ : Type} {radix length : Nat}

/-- A visit of all tuples in which no step fails comes to its end. -/
theorem exists_foldTuples (step : σ → List Nat → Except ε σ) (start : σ)
    (goesOn : ∀ digits, Fits radix length digits → ∀ state, ∃ next, step state digits = .ok next) :
    ∃ result, foldTuples radix length step start = .ok result := by
  rw [foldTuples_eq_foldlM]
  exact Attempt.exists_foldlM step _ start fun digits member => goesOn digits (mem_walk.mp member)

/-- So does one that also counts the tuples, if their number stays below the limit of the
count. -/
theorem exists_foldTuples_count (step : σ × Nat → List Nat → Except ε (σ × Nat)) (limit : Nat)
    (start : σ) (room : total radix length < limit)
    (goesOn : ∀ digits, Fits radix length digits → ∀ total count, count + 1 < limit →
      ∃ next, step (total, count) digits = .ok (next, count + 1)) :
    ∃ result, foldTuples radix length step (start, 0) = .ok result := by
  rw [foldTuples_eq_foldlM]
  exact Attempt.exists_foldlM_count step limit _ start 0
    (fun digits member => goesOn digits (mem_walk.mp member)) (by rwa [length_walk, Nat.zero_add])

/-- Visits whose steps agree on the tuples come to the same end. -/
theorem foldTuples_congr {left right : σ → List Nat → Except ε σ} (start : σ)
    (agree : ∀ digits, Fits radix length digits → ∀ state, left state digits = right state digits) :
    foldTuples radix length left start = foldTuples radix length right start := by
  rw [foldTuples_eq_foldlM, foldTuples_eq_foldlM]
  exact Attempt.foldlM_congr start fun digits member => agree digits (mem_walk.mp member)

/-- A visit that keeps the results of its steps lists them in the order of the walk. -/
theorem mapTuples_eq_map {β : Type} (step : List Nat → Except ε β) (value : List Nat → β)
    (known : ∀ digits, Fits radix length digits → step digits = .ok (value digits)) :
    mapTuples radix length step = .ok ((walk radix length).map value) := by
  have gathered (ahead : List (List Nat)) (results : List β)
      (fit : ∀ digits ∈ ahead, Fits radix length digits) :
      ahead.foldlM (fun results digits => (step digits).map (· :: results)) results
        = .ok ((ahead.map value).reverse ++ results) := by
    induction ahead generalizing results with
    | nil => rfl
    | cons digits later inductionHypothesis =>
      obtain ⟨here, there⟩ := List.forall_mem_cons.mp fit
      rw [List.foldlM_cons, known digits here]
      exact (inductionHypothesis _ there).trans (by simp)
  rw [mapTuples, foldTuples_eq_foldlM, gathered _ [] fun _ => mem_walk.mp]
  simp [Except.map]

end

end Nonlocal.Tuple
