import Mathlib.Data.Nat.Bitwise
import Mathlib.Tactic.Ring
import Nonlocal.PartySet

/-!
# How many parties a mask holds

The population of a mask is the number of its ones. Masks with a population of
`k` are at least `2 ^ k - 1`, and those of `w` bits stay `2 ^ (w - k)` below
`2 ^ w`: the ones stand at the bottom in the least of them and at the top in the
greatest. A positive mask splits into the bits above its lowest run of ones, the
run itself and the zeros below it.
-/

namespace Nonlocal.PartySet

/-- The number of ones of a mask. -/
def population (mask : Nat) : Nat :=
  if mask = 0 then 0 else mask % 2 + population (mask / 2)

/-- No mask has fewer ones than the empty one. -/
@[simp] theorem population_zero : population 0 = 0 := by
  rw [population]
  rfl

/-- The lowest bit adds itself to the population of the others. -/
theorem population_bit (rest : Nat) (low : Bool) :
    population (2 * rest + low.toNat) = low.toNat + population rest := by
  have bound : low.toNat < 2 := by cases low <;> decide
  rw [population]
  split
  · next empty =>
    have noRest : rest = 0 := by omega
    have noLow : low.toNat = 0 := by omega
    simp [noRest, noLow]
  · have remainder : (2 * rest + low.toNat) % 2 = low.toNat := by omega
    have quotient : (2 * rest + low.toNat) / 2 = rest := by omega
    rw [remainder, quotient]

/-- A zero at the bottom adds nothing. -/
theorem population_double (rest : Nat) : population (2 * rest) = population rest := by
  simpa using population_bit rest false

/-- A one at the bottom adds one. -/
theorem population_double_succ (rest : Nat) :
    population (2 * rest + 1) = population rest + 1 := by
  simpa [Nat.add_comm] using population_bit rest true

/-- Every mask is a lowest bit below a smaller mask. -/
theorem exists_bit (mask : Nat) : ∃ rest, mask = 2 * rest ∨ mask = 2 * rest + 1 :=
  ⟨mask / 2, by omega⟩

/-- The ones of a low part and of the part above it add up. -/
theorem population_append (width high low : Nat) (bound : low < 2 ^ width) :
    population (2 ^ width * high + low) = population high + population low := by
  induction width generalizing low with
  | zero =>
    have empty : low = 0 := by simpa using bound
    simp [empty]
  | succ width inductionHypothesis =>
    obtain ⟨rest, rfl | rfl⟩ := exists_bit low
    · have restBound : rest < 2 ^ width := by
        rw [Nat.pow_succ] at bound
        omega
      have shape : 2 ^ (width + 1) * high + 2 * rest = 2 * (2 ^ width * high + rest) := by ring
      rw [shape, population_double, population_double, inductionHypothesis rest restBound]
    · have restBound : rest < 2 ^ width := by
        rw [Nat.pow_succ] at bound
        omega
      have shape : 2 ^ (width + 1) * high + (2 * rest + 1)
          = 2 * (2 ^ width * high + rest) + 1 := by ring
      rw [shape, population_double_succ, population_double_succ,
        inductionHypothesis rest restBound]
      omega

/-- The mask of the first parties holds all of them. -/
theorem population_ones (count : Nat) : population (2 ^ count - 1) = count := by
  induction count with
  | zero => simp
  | succ count inductionHypothesis =>
    have positive : 0 < 2 ^ count := Nat.two_pow_pos count
    have shape : 2 ^ (count + 1) - 1 = 2 * (2 ^ count - 1) + 1 := by
      rw [Nat.pow_succ]
      omega
    rw [shape, population_double_succ, inductionHypothesis]

/-- A mask of so many bits holds at most so many parties. -/
theorem population_le {width mask : Nat} (bound : mask < 2 ^ width) :
    population mask ≤ width := by
  induction width generalizing mask with
  | zero =>
    have empty : mask = 0 := by simpa using bound
    simp [empty]
  | succ width inductionHypothesis =>
    rw [Nat.pow_succ] at bound
    obtain ⟨rest, rfl | rfl⟩ := exists_bit mask
    · rw [population_double]
      exact (inductionHypothesis (by omega)).trans (Nat.le_succ _)
    · rw [population_double_succ]
      exact Nat.succ_le_succ (inductionHypothesis (by omega))

/-- The least mask of a population has its ones at the bottom. -/
theorem two_pow_population_le (mask : Nat) : 2 ^ population mask ≤ mask + 1 := by
  induction mask using Nat.strong_induction_on with
  | _ mask inductionHypothesis =>
    rcases Nat.eq_zero_or_pos mask with rfl | positive
    · simp
    · obtain ⟨rest, rfl | rfl⟩ := exists_bit mask
      · have smaller := inductionHypothesis rest (by omega)
        rw [population_double]
        omega
      · have smaller := inductionHypothesis rest (by omega)
        rw [population_double_succ, Nat.pow_succ]
        omega

/-- The greatest mask of a width and a population has its ones at the top. -/
theorem add_two_pow_le {width mask : Nat} (bound : mask < 2 ^ width) :
    mask + 2 ^ (width - population mask) ≤ 2 ^ width := by
  induction width generalizing mask with
  | zero =>
    have empty : mask = 0 := by simpa using bound
    simp [empty]
  | succ width inductionHypothesis =>
    rw [Nat.pow_succ] at bound ⊢
    obtain ⟨rest, rfl | rfl⟩ := exists_bit mask
    · have restBound : rest < 2 ^ width := by omega
      have smaller := inductionHypothesis restBound
      have width_eq : width + 1 - population rest = width - population rest + 1 := by
        have := population_le restBound
        omega
      rw [population_double, width_eq, Nat.pow_succ]
      omega
    · have restBound : rest < 2 ^ width := by omega
      have smaller := inductionHypothesis restBound
      have positive : 0 < 2 ^ (width - population rest) := Nat.two_pow_pos _
      rw [population_double_succ, Nat.add_sub_add_right]
      omega

/-- The mask with `zeros` zeros at the bottom, a run of `ones` ones above them, a
zero above the run, and `high` on top. -/
def run (high ones zeros : Nat) : Nat :=
  2 ^ (zeros + ones + 1) * high + (2 ^ ones - 1) * 2 ^ zeros

/-- Every mask ends in a run of ones, which may be empty, with a zero above it. -/
theorem exists_lowest_run (mask : Nat) : ∃ high ones, mask = run high ones 0 := by
  induction mask using Nat.strong_induction_on with
  | _ mask inductionHypothesis =>
    obtain ⟨rest, rfl | rfl⟩ := exists_bit mask
    · exact ⟨rest, 0, by simp [run]⟩
    · obtain ⟨high, ones, shape⟩ := inductionHypothesis rest (by omega)
      refine ⟨high, ones + 1, ?_⟩
      have positive : 0 < 2 ^ ones := Nat.two_pow_pos ones
      have topBit : 2 ^ (ones + 1 + 1) * high = 2 * (2 ^ (ones + 1) * high) := by ring
      have doubled : 2 ^ (ones + 1) = 2 * 2 ^ ones := by ring
      simp only [run, Nat.zero_add, Nat.pow_zero, Nat.mul_one] at shape ⊢
      rw [topBit]
      omega

/-- Every positive mask has a lowest run that is not empty. -/
theorem exists_run {mask : Nat} (nonempty : mask ≠ 0) :
    ∃ high ones zeros, 0 < ones ∧ mask = run high ones zeros := by
  induction mask using Nat.strong_induction_on with
  | _ mask inductionHypothesis =>
    obtain ⟨rest, even | odd⟩ := exists_bit mask
    · obtain ⟨high, ones, zeros, positive, shape⟩ :=
        inductionHypothesis rest (by omega) (by omega)
      refine ⟨high, ones, zeros + 1, positive, ?_⟩
      rw [even, shape]
      unfold run
      ring
    · obtain ⟨high, ones, shape⟩ := exists_lowest_run mask
      refine ⟨high, ones, 0, ?_, shape⟩
      rcases Nat.eq_zero_or_pos ones with rfl | positive
      · simp only [run, Nat.zero_add, Nat.pow_zero, Nat.pow_one] at shape
        omega
      · exact positive

/-- The run and the zeros below it fit beneath the bits above them. -/
theorem run_low_lt (ones zeros : Nat) : (2 ^ ones - 1) * 2 ^ zeros < 2 ^ (zeros + ones) := by
  have positive : 0 < 2 ^ ones := Nat.two_pow_pos ones
  rw [Nat.add_comm, Nat.pow_add]
  exact Nat.mul_lt_mul_of_pos_right (by omega) (Nat.two_pow_pos zeros)

/-- The population of a split mask. -/
theorem population_run (high ones zeros : Nat) :
    population (run high ones zeros) = population high + ones := by
  have low : population ((2 ^ ones - 1) * 2 ^ zeros) = ones := by
    have split := population_append zeros (2 ^ ones - 1) 0 (Nat.two_pow_pos zeros)
    simpa [Nat.mul_comm, population_ones] using split
  have bound : (2 ^ ones - 1) * 2 ^ zeros < 2 ^ (zeros + ones + 1) := by
    have := run_low_lt ones zeros
    rw [Nat.pow_succ]
    omega
  rw [run, population_append _ _ _ bound, low]

end Nonlocal.PartySet
