import Mathlib.Algebra.BigOperators.Group.Finset.Sigma
import Mathlib.Algebra.BigOperators.Ring.Finset
import Mathlib.Algebra.Order.Ring.Rat
import Mathlib.Data.List.InsertIdx
import Nonlocal.Proofs.Tuple.Enumeration

/-!
# Sums over tuples

A sum over a set of tuples is taken apart by one digit. The tuples with a given digit
at a position are those that are put together from the digit and the others, so a sum
over the others is a sum over such tuples. In a set in which one digit is free, letting
that digit run through its range once more only repeats the sum.
-/

namespace Nonlocal.Tuple

variable {radix length position digit : Nat} {digits : List Nat}

/-- The set of all tuples of a length. -/
def tuples (radix length : Nat) : Finset (List Nat) := (walk radix length).toFinset

/-- The set holds the tuples that fit. -/
theorem mem_tuples : digits ∈ tuples radix length ↔ Fits radix length digits := by
  rw [tuples, List.mem_toFinset, mem_walk]

/-- Summing over the set is summing along the walk. -/
theorem sum_tuples {β : Type} [AddCommMonoid β] (f : List Nat → β) :
    ∑ digits ∈ tuples radix length, f digits = ((walk radix length).map f).sum :=
  List.sum_toFinset f (nodup_walk radix length)

/-- The set is as large as the number of tuples says. -/
theorem card_tuples (radix length : Nat) : (tuples radix length).card = total radix length := by
  rw [tuples, List.toFinset_card_of_nodup (nodup_walk radix length), length_walk]

/-- A fitting tuple has a digit of the range at each position. -/
theorem Fits.exists_digit (fits : Fits radix length digits) (present : position < length) :
    ∃ digit < radix, digits[position]? = some digit := by
  obtain ⟨rfl, inside⟩ := fits
  exact ⟨digits[position], inside _ (List.getElem_mem present), List.getElem?_eq_getElem present⟩

/-- A digit that a fitting tuple has is in its range. -/
theorem Fits.lt_of_getElem? (fits : Fits radix length digits)
    (found : digits[position]? = some digit) : position < length ∧ digit < radix := by
  obtain ⟨present, rfl⟩ := List.getElem?_eq_some_iff.mp found
  exact ⟨fits.1 ▸ present, fits.2 _ (List.getElem_mem present)⟩

/-- Beyond its length a fitting tuple has no digit. -/
theorem Fits.getElem?_eq_none (fits : Fits radix length digits) (beyond : ¬ position < length) :
    digits[position]? = none :=
  List.getElem?_eq_none (by rw [fits.1]; omega)

/-- Fitting tuples with the same digits are the same. -/
theorem Fits.ext {left right : List Nat} (leftFits : Fits radix length left)
    (rightFits : Fits radix length right)
    (same : ∀ position < length, left[position]? = right[position]?) : left = right := by
  apply List.ext_getElem?
  intro position
  by_cases inside : position < length
  · exact same position inside
  · rw [leftFits.getElem?_eq_none inside, rightFits.getElem?_eq_none inside]

/-- Replacing a digit by one of the range keeps a tuple fitting. -/
theorem Fits.set (fits : Fits radix length digits) (inside : digit < radix) (position : Nat) :
    Fits radix length (digits.set position digit) := by
  refine ⟨by rw [List.length_set, fits.1], ?_⟩
  intro other member
  rcases List.mem_or_eq_of_mem_set member with kept | rfl
  · exact fits.2 other kept
  · exact inside

/-- Putting a digit of the range in makes a tuple one digit longer. -/
theorem Fits.insertIdx (fits : Fits radix length digits) (inside : digit < radix)
    (room : position ≤ length) : Fits radix (length + 1) (digits.insertIdx position digit) := by
  refine ⟨by rw [List.length_insertIdx_of_le_length (fits.1 ▸ room), fits.1],
    fun other member => ?_⟩
  rcases List.eq_or_mem_of_mem_insertIdx member with rfl | kept
  · exact inside
  · exact fits.2 other kept

/-- Taking a digit out makes a tuple one digit shorter. -/
theorem Fits.eraseIdx (fits : Fits radix (length + 1) digits) (present : position ≤ length) :
    Fits radix length (digits.eraseIdx position) := by
  obtain ⟨sameLength, inside⟩ := fits
  refine ⟨?_, fun other member => inside other (List.mem_of_mem_eraseIdx member)⟩
  rw [List.length_eraseIdx_of_lt (by omega)]
  omega

/-- Replacing a digit by itself changes nothing. -/
theorem set_self (found : digits[position]? = some digit) : digits.set position digit = digits := by
  obtain ⟨_, rfl⟩ := List.getElem?_eq_some_iff.mp found
  exact List.set_getElem_self _

/-- Replacing a digit that was put in is putting in the other one. -/
theorem set_insertIdx (room : position ≤ digits.length) (value other : Nat) :
    (digits.insertIdx position value).set position other = digits.insertIdx position other := by
  rw [← List.insertIdx_eraseIdx_self, List.eraseIdx_insertIdx_self]
  rw [List.length_insertIdx_of_le_length room]
  omega

/-- At a position inside the tuple a digit is put in between those before and after it. -/
theorem insertAt_eq_ok {ε : Type} (room : position ≤ digits.length) (value : Nat) :
    (insertAt digits position value : Attempt ε (List Nat))
      = .ok (digits.insertIdx position value) := by
  have halves : digits.insertIdx position value
      = digits.take position ++ value :: digits.drop position := by
    induction position generalizing digits with
    | zero => simp
    | succ position inductionHypothesis =>
      cases digits with
      | nil => simp at room
      | cons first rest =>
        rw [List.insertIdx_succ_cons, List.take_succ_cons, List.drop_succ_cons,
          List.cons_append, inductionHypothesis (by simpa using room)]
  rw [insertAt, if_pos room, halves]

section

variable {ε β : Type} [AddCommMonoid β]

/-- A run over the values of a range that adds one number for each gives their sum. -/
theorem foldValues_add (step : β → Nat → Except ε β) (value : Nat → β) (count : Nat)
    (known : ∀ index < count, ∀ total, step total index = .ok (total + value index)) :
    foldValues step count 0 0 = .ok (∑ index ∈ Finset.range count, value index) := by
  have added := Attempt.foldlM_add step value (List.range count) 0 fun index member =>
    known index (List.mem_range.mp member)
  rw [Attempt.foldValues_eq_foldlM, ← List.range_eq_range', added, zero_add]
  rfl

/-- A run over all tuples that adds one number for each gives their sum. -/
theorem foldTuples_add (step : β → List Nat → Except ε β) (value : List Nat → β) (start : β)
    (known : ∀ digits, Fits radix length digits → ∀ total,
      step total digits = .ok (total + value digits)) :
    foldTuples radix length step start
      = .ok (start + ∑ digits ∈ tuples radix length, value digits) := by
  rw [foldTuples_eq_foldlM, sum_tuples]
  exact Attempt.foldlM_add step value _ start fun digits member =>
    known digits (mem_walk.mp member)

/-- A run over all tuples that also counts them gives their sum and their number, if that
number stays below the limit of the count. -/
theorem foldTuples_add_count (step : β × Nat → List Nat → Except ε (β × Nat))
    (value : List Nat → β) (limit : Nat) (room : total radix length < limit)
    (known : ∀ digits, Fits radix length digits → ∀ total count, count + 1 < limit →
      step (total, count) digits = .ok (total + value digits, count + 1)) :
    foldTuples radix length step (0, 0)
      = .ok (∑ digits ∈ tuples radix length, value digits, total radix length) := by
  have added := Attempt.foldlM_add_count step value limit (walk radix length) 0 0
    (fun digits member => known digits (mem_walk.mp member)) (by rwa [length_walk, zero_add])
  rwa [foldTuples_eq_foldlM, sum_tuples, ← zero_add (List.sum _), ← length_walk,
    ← zero_add (List.length _)]

/-- A sum over tuples is split by the digit at one position. -/
theorem sum_digit {region : Finset (List Nat)}
    (within : ∀ digits ∈ region, Fits radix length digits) (present : position < length)
    (f : List Nat → β) :
    ∑ digit ∈ Finset.range radix, ∑ digits ∈ region with digits[position]? = some digit, f digits
      = ∑ digits ∈ region, f digits := by
  have mapsTo : ∀ digits ∈ region,
      digits[position]? ∈ (Finset.range radix).map Function.Embedding.some := by
    intro digits member
    obtain ⟨digit, inside, found⟩ := (within digits member).exists_digit present
    rw [found]
    exact Finset.mem_map_of_mem _ (Finset.mem_range.mpr inside)
  rw [← Finset.sum_fiberwise_of_maps_to mapsTo f, Finset.sum_map]
  rfl

/-- A sum over the others of one position is a sum over the tuples with a fixed digit
there. -/
theorem sum_insertIdx (inside : digit < radix) (room : position ≤ length)
    (f : List Nat → β) :
    ∑ others ∈ tuples radix length, f (others.insertIdx position digit)
      = ∑ digits ∈ tuples radix (length + 1) with digits[position]? = some digit, f digits := by
  refine Finset.sum_nbij' (fun others => others.insertIdx position digit)
    (fun digits => digits.eraseIdx position) ?_ ?_ ?_ ?_ ?_
  · intro others member
    have fits := mem_tuples.mp member
    rw [Finset.mem_filter, mem_tuples]
    exact ⟨fits.insertIdx inside room, by simp [List.getElem?_insertIdx_self, fits.1, room]⟩
  · intro digits member
    rw [Finset.mem_filter, mem_tuples] at member
    exact mem_tuples.mpr (member.1.eraseIdx room)
  · intro others member
    exact List.eraseIdx_insertIdx_self digit
  · intro digits member
    obtain ⟨present, rfl⟩ := List.getElem?_eq_some_iff.mp (Finset.mem_filter.mp member).2
    exact List.insertIdx_eraseIdx_getElem present
  · intro others member
    rfl

/-- Only the empty tuple has no digit. -/
theorem sum_tuples_zero (f : List Nat → β) : ∑ digits ∈ tuples radix 0, f digits = f [] := by
  rw [sum_tuples, walk_zero]
  simp

/-- A sum over longer tuples runs through their first digits. -/
theorem sum_tuples_succ (f : List Nat → β) :
    ∑ digits ∈ tuples radix (length + 1), f digits
      = ∑ digit ∈ Finset.range radix, ∑ rest ∈ tuples radix length, f (digit :: rest) := by
  rw [← sum_digit (fun digits member => mem_tuples.mp member) length.succ_pos f]
  apply Finset.sum_congr rfl
  intro digit member
  exact (sum_insertIdx (Finset.mem_range.mp member) length.zero_le f).symm

end

/-- A tuple and a digit, with the digit exchanged for the one at a position. -/
def exchange (position : Nat) (pair : List Nat × Nat) : List Nat × Nat :=
  (pair.1.set position pair.2, pair.1[position]?.getD 0)

/-- Exchanging twice leads back. -/
theorem exchange_exchange {pair : List Nat × Nat} (present : position < pair.1.length) :
    exchange position (exchange position pair) = pair := by
  simp [exchange, present]

/-- Where one digit is free, letting it run through its range at every tuple counts
every tuple as often as the range says: a tuple with another digit in the place of its
own is paired with that tuple and its own digit. -/
theorem sum_set {region : Finset (List Nat)}
    (within : ∀ digits ∈ region, Fits radix length digits) (present : position < length)
    (free : ∀ digits ∈ region, ∀ digit < radix, digits.set position digit ∈ region)
    (f : List Nat → Rat) :
    ∑ digits ∈ region, ∑ digit ∈ Finset.range radix, f (digits.set position digit)
      = radix * ∑ digits ∈ region, f digits := by
  have stays : ∀ pair ∈ region ×ˢ Finset.range radix,
      exchange position pair ∈ region ×ˢ Finset.range radix := by
    rintro ⟨digits, digit⟩ member
    obtain ⟨inRegion, inRange⟩ := Finset.mem_product.mp member
    obtain ⟨own, inside, found⟩ := (within digits inRegion).exists_digit present
    refine Finset.mem_product.mpr ⟨free digits inRegion digit (Finset.mem_range.mp inRange), ?_⟩
    simpa [exchange, found] using inside
  have involutive : ∀ pair ∈ region ×ˢ Finset.range radix,
      exchange position (exchange position pair) = pair := by
    intro pair member
    have fits := within pair.1 (Finset.mem_product.mp member).1
    exact exchange_exchange (fits.1 ▸ present)
  have swapped : ∑ pair ∈ region ×ˢ Finset.range radix, f (pair.1.set position pair.2)
      = ∑ pair ∈ region ×ˢ Finset.range radix, f pair.1 :=
    Finset.sum_nbij' (exchange position) (exchange position) stays stays involutive involutive
      fun _ _ => rfl
  rw [← Finset.sum_product', swapped, Finset.sum_product, Finset.mul_sum]
  simp only [Finset.sum_const, Finset.card_range, nsmul_eq_mul]

end Nonlocal.Tuple
