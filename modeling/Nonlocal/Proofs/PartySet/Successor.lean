import Nonlocal.Proofs.Attempt
import Nonlocal.Proofs.PartySet.Population

/-!
# The next set of the same size

Moving the top of the lowest run one place up, and the rest of the run to the
bottom, gives the least greater mask with as many ones. The word operations that
do this (complement, carry, difference and quotient) are read off the split of a
mask at its lowest run; none of them leaves its word below `2 ^ 63`.
-/

namespace Nonlocal.PartySet

variable {ε : Type}

/-- The split mask with the top of its lowest run moved up and the rest of the run
moved to the bottom. -/
def advance (high ones zeros : Nat) : Nat :=
  2 ^ (zeros + ones) * (2 * high + 1) + (2 ^ (ones - 1) - 1)

/-- A mask and its complement in a width have no one in common. -/
theorem and_complement {width mask : Nat} (bound : mask < 2 ^ width) :
    mask &&& (2 ^ width - (mask + 1)) = 0 := by
  apply Nat.eq_of_testBit_eq
  intro place
  rw [Nat.testBit_and, Nat.testBit_two_pow_sub_succ bound, Nat.zero_testBit]
  cases mask.testBit place <;> simp

/-- The lowest one of an odd word, in any width that holds it, is its last bit. -/
theorem odd_and_complement {width rest : Nat} (bound : rest < 2 ^ width) :
    (2 * rest + 1) &&& (2 ^ (width + 1) - (2 * rest + 1)) = 1 := by
  have complement : 2 ^ (width + 1) - (2 * rest + 1) = 2 * (2 ^ width - (rest + 1)) + 1 := by
    rw [Nat.pow_succ]
    omega
  apply Nat.eq_of_testBit_eq
  intro place
  rw [complement, Nat.testBit_and]
  cases place with
  | zero => simp
  | succ place =>
    have disjoint := congrArg (Nat.testBit · place) (and_complement bound)
    simp only [Nat.testBit_and, Nat.zero_testBit] at disjoint
    simp only [Nat.testBit_succ]
    have half (value : Nat) : (2 * value + 1) / 2 = value := by omega
    rw [half, half, disjoint]
    simp

/-- A split mask with a nonempty run is an odd number shifted past its zeros. -/
theorem exists_odd_of_run (high zeros : Nat) {ones : Nat} (nonempty : 0 < ones) :
    ∃ rest, run high ones zeros = 2 ^ zeros * (2 * rest + 1) := by
  obtain ⟨ones, rfl⟩ : ∃ fewer, ones = fewer + 1 := ⟨ones - 1, by omega⟩
  refine ⟨2 ^ (ones + 1) * high + (2 ^ ones - 1), ?_⟩
  have inner : 2 * (2 ^ (ones + 1) * high + (2 ^ ones - 1)) + 1
      = 2 ^ (ones + 1 + 1) * high + (2 ^ (ones + 1) - 1) := by
    have positive : 0 < 2 ^ ones := Nat.two_pow_pos ones
    have doubled : 2 ^ (ones + 1) = 2 * 2 ^ ones := by ring
    have topBit : 2 ^ (ones + 1 + 1) * high = 2 * (2 ^ (ones + 1) * high) := by ring
    omega
  rw [inner]
  unfold run
  ring

/-- A word that is an odd number shifted leaves room for the odd number. -/
theorem exists_width_of_odd {zeros rest : Nat} (bound : 2 ^ zeros * (2 * rest + 1) < Word.limit) :
    ∃ width, Word.limit = 2 ^ zeros * 2 ^ (width + 1) ∧ rest < 2 ^ width := by
  have small : zeros < 64 := by
    by_contra large
    have tooLarge : 2 ^ 64 ≤ 2 ^ zeros := Nat.pow_le_pow_right (by decide) (by omega)
    have atLeast : 2 ^ zeros ≤ 2 ^ zeros * (2 * rest + 1) :=
      Nat.le_mul_of_pos_right _ (Nat.succ_pos _)
    have limit : Word.limit = 2 ^ 64 := rfl
    omega
  obtain ⟨width, word⟩ : ∃ width, 64 = zeros + (width + 1) := ⟨63 - zeros, by omega⟩
  have limit : Word.limit = 2 ^ zeros * 2 ^ (width + 1) := by
    rw [← Nat.pow_add, ← word]
    rfl
  refine ⟨width, limit, ?_⟩
  rw [limit] at bound
  have oddBound := Nat.lt_of_mul_lt_mul_left bound
  rw [Nat.pow_succ] at oddBound
  omega

/-- The lowest one of a split mask stands above its zeros. -/
theorem lowestBit_run {high ones zeros : Nat} (nonempty : 0 < ones)
    (bound : run high ones zeros < Word.limit) :
    lowestBit (run high ones zeros) = 2 ^ zeros := by
  obtain ⟨rest, odd⟩ := exists_odd_of_run high zeros nonempty
  rw [odd] at bound ⊢
  obtain ⟨width, limit, restBound⟩ := exists_width_of_odd bound
  -- The complement is an odd number shifted past as many zeros.
  have negated : Word.negate (2 ^ zeros * (2 * rest + 1))
      = 2 ^ zeros * (2 ^ (width + 1) - (2 * rest + 1)) := by
    have positive : 0 < 2 ^ zeros * (2 * rest + 1) :=
      Nat.mul_pos (Nat.two_pow_pos zeros) (Nat.succ_pos _)
    have below : Word.limit - 2 ^ zeros * (2 * rest + 1) < Word.limit := by omega
    rw [Word.negate, Nat.mod_eq_of_lt below, limit, Nat.mul_sub]
  rw [lowestBit, negated, Nat.mul_comm (2 ^ zeros), Nat.mul_comm (2 ^ zeros),
    ← Nat.shiftLeft_eq, ← Nat.shiftLeft_eq, ← Nat.shiftLeft_and_distrib,
    odd_and_complement restBound, Nat.one_shiftLeft]

/-- The carry through the lowest run puts a single one above it. -/
theorem run_add_lowest (high ones zeros : Nat) :
    run high ones zeros + 2 ^ zeros = 2 ^ (zeros + ones) * (2 * high + 1) := by
  have positive : 0 < 2 ^ ones := Nat.two_pow_pos ones
  have whole : (2 ^ ones - 1) * 2 ^ zeros + 2 ^ zeros = 2 ^ zeros * 2 ^ ones := by
    rw [← Nat.succ_mul, Nat.succ_eq_add_one, Nat.sub_add_cancel positive, Nat.mul_comm]
  rw [run, Nat.add_assoc, whole]
  ring

/-- The carry changes the run and the place above it, and nothing else. -/
theorem carry_xor_run {high ones zeros : Nat} :
    (2 ^ (zeros + ones) * (2 * high + 1)) ^^^ run high ones zeros
      = (2 ^ (ones + 1) - 1) * 2 ^ zeros := by
  have carried : 2 ^ (zeros + ones) * (2 * high + 1)
      = (2 ^ (ones + 1) * high + 2 ^ ones) <<< zeros := by
    rw [Nat.shiftLeft_eq]
    ring
  have split : run high ones zeros = (2 ^ (ones + 1) * high + (2 ^ ones - 1)) <<< zeros := by
    rw [Nat.shiftLeft_eq, run, Nat.add_mul]
    ring
  have positive : 0 < 2 ^ ones := Nat.two_pow_pos ones
  have oneBound : 2 ^ ones < 2 ^ (ones + 1) := by
    rw [Nat.pow_succ]
    omega
  have onesBound : 2 ^ ones - 1 < 2 ^ (ones + 1) := by omega
  rw [carried, split, ← Nat.shiftLeft_xor_distrib, ← Nat.shiftLeft_eq]
  congr 1
  apply Nat.eq_of_testBit_eq
  intro place
  rw [Nat.testBit_xor, Nat.testBit_two_pow_mul_add _ oneBound,
    Nat.testBit_two_pow_mul_add _ onesBound, Nat.testBit_two_pow_sub_one]
  by_cases inside : place < ones + 1
  · simp only [inside, if_true, Nat.testBit_two_pow, Nat.testBit_two_pow_sub_one, decide_true]
    rcases Nat.lt_or_eq_of_le (Nat.le_of_lt_succ inside) with below | rfl
    · simp [below, Nat.ne_of_gt below]
    · simp
  · simp [inside]

/-- The rest of the run, moved to the bottom by the quotient, stays below the one
that was carried up. -/
theorem rest_of_run_lt (ones zeros : Nat) : 2 ^ (ones - 1) - 1 < 2 ^ (zeros + ones) := by
  have positive : 0 < 2 ^ (ones - 1) := Nat.two_pow_pos _
  have room : 2 ^ (ones - 1) ≤ 2 ^ (zeros + ones) :=
    Nat.pow_le_pow_right (by decide) (by omega)
  omega

/-- Below `2 ^ 63` the word operations advance the lowest run without a fault. -/
theorem nextSameSize_run {high ones zeros : Nat} (nonempty : 0 < ones)
    (bound : run high ones zeros < 2 ^ 63) :
    (nextSameSize (run high ones zeros) : Attempt ε Nat) = .ok (advance high ones zeros) := by
  have limit : Word.limit = 2 ^ 64 := rfl
  have lowest : lowestBit (run high ones zeros) = 2 ^ zeros :=
    lowestBit_run nonempty (by omega)
  have lowestBound : 2 ^ zeros ≤ run high ones zeros := by
    have positive : 1 ≤ 2 ^ ones - 1 := by
      have : 2 ^ 1 ≤ 2 ^ ones := Nat.pow_le_pow_right (by decide) nonempty
      omega
    exact (Nat.le_mul_of_pos_left _ positive).trans (Nat.le_add_left _ _)
  have added : (Word.add (run high ones zeros) (2 ^ zeros) : Attempt ε Nat)
      = .ok (2 ^ (zeros + ones) * (2 * high + 1)) := by
    rw [Word.add, if_pos (by omega), run_add_lowest]
  have quotient : ((2 ^ (ones + 1) - 1) * 2 ^ zeros) >>> 2 / 2 ^ zeros = 2 ^ (ones - 1) - 1 := by
    obtain ⟨fewer, rfl⟩ : ∃ fewer, ones = fewer + 1 := ⟨ones - 1, by omega⟩
    have positive : 0 < 2 ^ fewer := Nat.two_pow_pos fewer
    have doubled : 2 ^ (fewer + 1 + 1) = 4 * 2 ^ fewer := by ring
    rw [Nat.shiftRight_eq_div_pow, Nat.div_div_eq_div_mul,
      Nat.mul_div_mul_right _ _ (Nat.two_pow_pos zeros), doubled, Nat.add_sub_cancel]
    omega
  have divided : (Word.div (((2 ^ (ones + 1) - 1) * 2 ^ zeros) >>> 2) (2 ^ zeros) : Attempt ε Nat)
      = .ok (2 ^ (ones - 1) - 1) := by
    rw [Word.div, if_neg (Nat.ne_of_gt (Nat.two_pow_pos zeros)), quotient]
  have joined : (2 ^ (ones - 1) - 1) ||| 2 ^ (zeros + ones) * (2 * high + 1)
      = advance high ones zeros := by
    rw [Nat.or_comm, ← Nat.two_pow_add_eq_or_of_lt (rest_of_run_lt ones zeros)]
    rfl
  simp only [nextSameSize, lowest, added, bind, Except.bind, carry_xor_run, divided, pure,
    Except.pure, joined]

/-- Advancing keeps the number of ones. -/
theorem population_advance {high ones zeros : Nat} (nonempty : 0 < ones) :
    population (advance high ones zeros) = population (run high ones zeros) := by
  rw [advance, population_append _ _ _ (rest_of_run_lt ones zeros), population_double_succ,
    population_ones, population_run]
  omega

/-- Advancing gives a greater mask. -/
theorem run_lt_advance (high ones zeros : Nat) :
    run high ones zeros < advance high ones zeros := by
  have carried := run_add_lowest high ones zeros
  have positive : 0 < 2 ^ zeros := Nat.two_pow_pos zeros
  unfold advance
  omega

/-- Of the low parts with as many ones as the run, those beyond the run are at least
the low part of the advance.

The run is the greatest low part of its population with a zero at the place above
it, so one beyond it has a one there, and the rest of that one is at least the least
part with one population fewer. -/
theorem low_advance_le {ones zeros below : Nat} (nonempty : 0 < ones)
    (bound : below < 2 ^ (zeros + ones + 1)) (counted : population below = ones)
    (past : (2 ^ ones - 1) * 2 ^ zeros < below) :
    2 ^ (zeros + ones) + (2 ^ (ones - 1) - 1) ≤ below := by
  have doubled : 2 ^ (zeros + ones + 1) = 2 * 2 ^ (zeros + ones) := by ring
  have topSet : 2 ^ (zeros + ones) ≤ below := by
    by_contra clear
    have small : below < 2 ^ (zeros + ones) := Nat.lt_of_not_le clear
    have greatest := add_two_pow_le small
    rw [counted, Nat.add_sub_cancel] at greatest
    have whole : (2 ^ ones - 1) * 2 ^ zeros + 2 ^ zeros = 2 ^ (zeros + ones) := by
      rw [← Nat.succ_mul, Nat.succ_eq_add_one, Nat.sub_add_cancel (Nat.two_pow_pos ones),
        Nat.pow_add, Nat.mul_comm]
    omega
  obtain ⟨rest, rfl⟩ := Nat.exists_eq_add_of_le topSet
  have restBound : rest < 2 ^ (zeros + ones) := by omega
  have restCounted : population rest = ones - 1 := by
    have split := population_append (zeros + ones) 1 rest restBound
    rw [Nat.mul_one, counted] at split
    have one : population 1 = 1 := population_ones 1
    omega
  have least := two_pow_population_le rest
  rw [restCounted] at least
  omega

/-- No mask of the same population lies between a mask and its advance: one with
greater bits above the run is beyond the advance, and one with the same bits above
it differs in its low part. -/
theorem advance_le {high ones zeros other : Nat} (nonempty : 0 < ones)
    (greater : run high ones zeros < other)
    (same : population other = population (run high ones zeros)) :
    advance high ones zeros ≤ other := by
  have doubled : 2 ^ (zeros + ones + 1) = 2 * 2 ^ (zeros + ones) := by ring
  have restLow := rest_of_run_lt ones zeros
  obtain ⟨above, below, belowBound, rfl⟩ : ∃ above below, below < 2 ^ (zeros + ones + 1)
      ∧ other = 2 ^ (zeros + ones + 1) * above + below :=
    ⟨other / 2 ^ (zeros + ones + 1), other % 2 ^ (zeros + ones + 1),
      Nat.mod_lt _ (Nat.two_pow_pos _), (Nat.div_add_mod _ _).symm⟩
  have advanced : advance high ones zeros
      = 2 ^ (zeros + ones + 1) * high + (2 ^ (zeros + ones) + (2 ^ (ones - 1) - 1)) := by
    unfold advance
    ring
  rcases Nat.lt_trichotomy above high with less | rfl | more
  · have step : 2 ^ (zeros + ones + 1) * (above + 1) ≤ 2 ^ (zeros + ones + 1) * high :=
      Nat.mul_le_mul_left _ less
    unfold run at greater
    rw [Nat.mul_add] at step
    omega
  · rw [population_append _ _ _ belowBound, population_run] at same
    unfold run at greater
    rw [advanced]
    exact Nat.add_le_add_left
      (low_advance_le nonempty belowBound (by omega) (by omega)) _
  · have step : 2 ^ (zeros + ones + 1) * (high + 1) ≤ 2 ^ (zeros + ones + 1) * above :=
      Nat.mul_le_mul_left _ more
    rw [Nat.mul_add] at step
    omega

/-- For every mask between 0 and `2 ^ 63` the next word is the least greater mask
with the same number of ones. -/
theorem nextSameSize_exact {mask : Nat} (nonempty : mask ≠ 0) (bound : mask < 2 ^ 63) :
    ∃ following, (nextSameSize mask : Attempt ε Nat) = .ok following ∧ mask < following ∧
      population following = population mask ∧
      ∀ other, mask < other → population other = population mask → following ≤ other := by
  obtain ⟨high, ones, zeros, positive, rfl⟩ := exists_run nonempty
  exact ⟨advance high ones zeros, nextSameSize_run positive bound, run_lt_advance high ones zeros,
    population_advance positive, fun other greater same => advance_le positive greater same⟩

end Nonlocal.PartySet
