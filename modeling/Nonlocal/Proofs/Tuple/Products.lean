import Mathlib.Algebra.BigOperators.Ring.Finset
import Nonlocal.Proofs.Tuple.Sum

/-!
# Sums of products over tuples

If what is summed over all tuples is a product with one factor for each digit, the sum is
the product of the sums over the single digits. Where some digits are settled, their
factors are left as they are.
-/

namespace Nonlocal.Tuple

variable {radix length position : Nat} {digits : List Nat}

/-- The digit at a position, 0 beyond the tuple. -/
def digitAt (digits : List Nat) (position : Nat) : Nat := digits[position]?.getD 0

/-- The first digit stands in front. -/
@[simp] theorem digitAt_cons_zero (digit : Nat) (rest : List Nat) :
    digitAt (digit :: rest) 0 = digit := rfl

/-- The others follow it. -/
@[simp] theorem digitAt_cons_succ (digit position : Nat) (rest : List Nat) :
    digitAt (digit :: rest) (position + 1) = digitAt rest position := rfl

/-- A digit that is there is the digit at its position. -/
theorem digitAt_of_getElem? {digit : Nat} (found : digits[position]? = some digit) :
    digitAt digits position = digit := by
  rw [digitAt, found]
  rfl

/-- Replacing a digit leaves the others alone. -/
theorem digitAt_set_ne {other : Nat} (elsewhere : other ≠ position) (digit : Nat) :
    digitAt (digits.set position digit) other = digitAt digits other := by
  rw [digitAt, digitAt, List.getElem?_set_ne elsewhere.symm]

/-- Inside a fitting tuple the digit at a position is there and in the range. -/
theorem Fits.getElem?_eq_digitAt (fits : Fits radix length digits) (present : position < length) :
    digits[position]? = some (digitAt digits position) ∧ digitAt digits position < radix := by
  obtain ⟨digit, inside, found⟩ := fits.exists_digit present
  rw [digitAt_of_getElem? found]
  exact ⟨found, inside⟩

/-- A sum over all tuples of a product over the positions is a product of sums over the
digits. -/
theorem sum_prod (radix length : Nat) (factor : Nat → Nat → Rat) :
    ∑ digits ∈ tuples radix length,
        ∏ position ∈ Finset.range length, factor position (digitAt digits position)
      = ∏ position ∈ Finset.range length, ∑ digit ∈ Finset.range radix, factor position digit := by
  induction length generalizing factor with
  | zero => rw [sum_tuples_zero, Finset.prod_range_zero, Finset.prod_range_zero]
  | succ length inductionHypothesis =>
    rw [sum_tuples_succ, Finset.prod_range_succ', mul_comm, Finset.sum_mul]
    apply Finset.sum_congr rfl
    intro digit _
    rw [← inductionHypothesis fun position => factor (position + 1), Finset.mul_sum]
    apply Finset.sum_congr rfl
    intro rest _
    rw [Finset.prod_range_succ', mul_comm]
    simp only [digitAt_cons_zero, digitAt_cons_succ]

/-- The factors of settled digits stay as they are; the others are summed. -/
theorem sum_prod_settled (settled : Nat → Prop) [DecidablePred settled] (digit : Nat → Nat)
    (inside : ∀ position < length, settled position → digit position < radix)
    (factor : Nat → Nat → Rat) :
    ∑ digits ∈ tuples radix length with
        ∀ position < length, settled position → digits[position]? = some (digit position),
        ∏ position ∈ Finset.range length, factor position (digitAt digits position)
      = ∏ position ∈ Finset.range length,
          if settled position then factor position (digit position)
          else ∑ value ∈ Finset.range radix, factor position value := by
  -- a tuple with another digit at a settled position contributes nothing
  have marked : ∀ digits ∈ tuples radix length,
      (if ∀ position < length, settled position → digits[position]? = some (digit position) then
        ∏ position ∈ Finset.range length, factor position (digitAt digits position) else 0)
      = ∏ position ∈ Finset.range length,
          if settled position → digitAt digits position = digit position then
            factor position (digitAt digits position) else 0 := by
    intro digits member
    rw [Finset.prod_ite_zero]
    congr 1
    simp only [Finset.mem_range, eq_iff_iff]
    refine forall₂_congr fun position present => imp_congr_right fun _ => ?_
    rw [((mem_tuples.mp member).getElem?_eq_digitAt present).1, Option.some_inj]
  rw [Finset.sum_filter, Finset.sum_congr rfl marked,
    sum_prod radix length fun position value =>
      if settled position → value = digit position then factor position value else 0]
  refine Finset.prod_congr rfl fun position present => ?_
  split
  · next isSettled =>
    have here := inside position (Finset.mem_range.mp present) isSettled
    simp [isSettled, here]
  · next free => simp [free]

end Nonlocal.Tuple
