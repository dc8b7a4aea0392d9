import Mathlib.Order.Bounds.Basic
import Nonlocal.Proofs.PartySet.Enumeration

/-!
# Every choice of pending parties, once

For each number of parties that there are bits for, the sets to go through are listed to
the end: no sum leaves its word, nothing is divided by zero, and every step gets further.
The list holds the masks of all choices that are neither empty nor everything. A mask
stands for the places of its ones and for nothing else, so that no choice comes twice
under different masks.
-/

namespace Nonlocal.PartySet

variable {ε : Type}

/-- The members of a mask of the parties are read off its ones, place by place. -/
theorem members_exact {mask parties : Nat} (few : parties ≤ Word.width)
    (bound : mask < 2 ^ parties) :
    ∃ present, (members mask parties : Attempt ε (List Nat)) = .ok present
      ∧ present.Pairwise (· < ·)
      ∧ (∀ party, party ∈ present ↔ mask.testBit party = true)
      ∧ present.length = population mask := by
  refine ⟨_, members_eq few, List.pairwise_lt_range.filter _, fun party => ?_,
    length_members bound⟩
  rw [List.mem_filter, List.mem_range, and_iff_right_iff_imp]
  intro isOne
  have atLeast : 2 ^ party ≤ mask := Nat.ge_two_pow_of_testBit isOne
  exact (Nat.pow_lt_pow_iff_right (by decide)).mp (atLeast.trans_lt bound)

/-- Members that are read alike belong to the same mask. -/
theorem eq_of_members {first second parties : Nat} (few : parties ≤ Word.width)
    (firstBound : first < 2 ^ parties) (secondBound : second < 2 ^ parties)
    (same : (members first parties : Attempt ε (List Nat)) = members second parties) :
    first = second := by
  rw [members_eq few, members_eq few] at same
  exact eq_of_members_eq firstBound secondBound (Except.ok.inj same)

/-- No set precedes itself. -/
theorem Precedes.ne {first second : Nat} (precedes : Precedes first second) : first ≠ second := by
  rintro rfl
  rcases precedes with fewer | ⟨-, less⟩
  · exact Nat.lt_irrefl _ fewer
  · exact Nat.lt_irrefl _ less

/-- All sets of the parties that are neither empty nor everything are listed, by size and then by
value, each of them once and nothing else. The members of each are the places of its ones in
ascending order, as many as it counts, and different masks have different members. Each set is
followed by the least greater one of its size: from every mask between 0 and `2 ^ 63` the step
leads there. -/
theorem proper_covers {parties : Nat} (few : parties ≤ maxParties) :
    ∃ masks, (proper parties : Attempt ε (List Nat)) = .ok masks
      ∧ masks.Pairwise Precedes
      ∧ masks.Nodup
      ∧ (∀ mask, mask ∈ masks
          ↔ mask < 2 ^ parties ∧ 1 ≤ population mask ∧ population mask < parties)
      ∧ (∀ mask ∈ masks, ∃ present,
          (members mask parties : Attempt ε (List Nat)) = .ok present
            ∧ present.Pairwise (· < ·)
            ∧ (∀ party, party ∈ present ↔ mask.testBit party = true)
            ∧ present.length = population mask)
      ∧ (∀ first ∈ masks, ∀ second ∈ masks,
          (members first parties : Attempt ε (List Nat)) = members second parties →
            first = second)
      ∧ ∀ mask, 0 < mask → mask < 2 ^ 63 → ∃ following,
          (nextSameSize mask : Attempt ε Nat) = .ok following
            ∧ IsLeast {other | mask < other ∧ population other = population mask} following := by
  have narrow : parties ≤ Word.width := few.trans (by decide)
  obtain ⟨masks, listed, ordered, exactly⟩ := proper_exact (ε := ε) few
  refine ⟨masks, listed, ordered, ordered.imp Precedes.ne, exactly, ?_, ?_, ?_⟩
  · exact fun mask member => members_exact narrow ((exactly mask).mp member).1
  · intro first inFirst second inSecond same
    exact eq_of_members narrow ((exactly first).mp inFirst).1 ((exactly second).mp inSecond).1 same
  · intro mask positive bound
    obtain ⟨following, stepped, greater, same, least⟩ :=
      nextSameSize_exact (ε := ε) (Nat.ne_of_gt positive) bound
    exact ⟨following, stepped, ⟨greater, same⟩, fun other ⟨more, alike⟩ => least other more alike⟩

/-- With as many parties as there are bits for, the list is too long to be formed. It still holds
the set of all parties but the first, and does not hold the set of all. -/
theorem fullWord_covers : 63 ≤ maxParties ∧ ∃ masks,
    (proper 63 : Attempt Empty (List Nat)) = .ok masks
      ∧ masks.Nodup ∧ 2 * (2 ^ 62 - 1) ∈ masks ∧ 2 ^ 63 - 1 ∉ masks := by
  have few : 63 ≤ maxParties := Nat.le_refl _
  obtain ⟨masks, listed, -, distinct, exactly, -⟩ := proper_covers (ε := Empty) few
  refine ⟨few, masks, listed, distinct, ?_, ?_⟩
  · rw [exactly, population_double, population_ones]
    decide
  · rw [exactly, population_ones]
    exact fun member => absurd member.2.2 (Nat.lt_irrefl _)

end Nonlocal.PartySet
