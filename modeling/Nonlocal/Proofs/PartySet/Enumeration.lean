import Mathlib.Data.List.Nodup
import Mathlib.Data.List.Pairwise
import Nonlocal.Proofs.PartySet.Successor

/-!
# All pending sets are listed

Following the next set of the same size from the least one on meets every set of
that size below the limit, in ascending order. Going through the sizes lists all
nonempty proper sets of the parties, each once. A mask is determined by its
members, and every choice of parties has a mask.
-/

namespace Nonlocal.PartySet

variable {ε : Type}

/-- The masks from one on, up to the limit, that have its population. -/
theorem sameSizeFrom_exact {limit mask : Nat} (nonempty : mask ≠ 0) (words : limit ≤ 2 ^ 63) :
    ∃ masks, (sameSizeFrom limit mask : Attempt ε (List Nat)) = .ok masks ∧
      masks.Pairwise (· < ·) ∧
      ∀ other, other ∈ masks
        ↔ mask ≤ other ∧ other < limit ∧ population other = population mask := by
  induction h : limit - mask using Nat.strong_induction_on generalizing mask with
  | _ distance inductionHypothesis =>
    rw [sameSizeFrom]
    by_cases inside : mask < limit
    · obtain ⟨following, stepped, greater, same, least⟩ :=
        nextSameSize_exact (ε := ε) nonempty (inside.trans_le words)
      obtain ⟨masks, listed, ascending, exactly⟩ :=
        inductionHypothesis (limit - following) (by omega) (by omega) rfl
      refine ⟨mask :: masks, by simp [inside, stepped, greater, listed], ?_, ?_⟩
      · refine List.pairwise_cons.mpr ⟨fun other member => ?_, ascending⟩
        exact greater.trans_le ((exactly other).mp member).1
      · intro other
        rw [List.mem_cons, exactly, same]
        constructor
        · rintro (rfl | ⟨atLeast, below, counted⟩)
          · exact ⟨Nat.le_refl _, inside, rfl⟩
          · exact ⟨greater.le.trans atLeast, below, counted⟩
        · rintro ⟨atLeast, below, counted⟩
          rcases Nat.eq_or_lt_of_le atLeast with rfl | beyond
          · exact Or.inl rfl
          · exact Or.inr ⟨least other beyond counted, below, counted⟩
    · refine ⟨[], by simp [inside], List.Pairwise.nil, ?_⟩
      intro other
      simp only [List.not_mem_nil, false_iff, not_and]
      omega

/-- A bit below the width of a word is a power of two. -/
theorem shiftLeft_one {distance : Nat} (bound : distance < Word.width) :
    (Word.shiftLeft 1 distance : Attempt ε Nat) = .ok (2 ^ distance) := by
  have word : 2 ^ distance < Word.limit := Nat.pow_lt_pow_right (by decide) bound
  rw [Word.shiftLeft, if_pos bound, Nat.one_shiftLeft, Nat.mod_eq_of_lt word]

/-- The sets of one size are exactly the masks below the limit with that
population: the first one listed is the least of them. -/
theorem ofSize_exact {limit size : Nat} (positive : 0 < size) (small : size < Word.width)
    (words : limit ≤ 2 ^ 63) :
    ∃ masks, (ofSize limit size : Attempt ε (List Nat)) = .ok masks ∧
      masks.Pairwise (· < ·) ∧
      ∀ mask, mask ∈ masks ↔ mask < limit ∧ population mask = size := by
  have power : 1 < 2 ^ size := Nat.one_lt_two_pow (Nat.ne_of_gt positive)
  have nonempty : 2 ^ size - 1 ≠ 0 := by omega
  obtain ⟨masks, listed, ascending, exactly⟩ := sameSizeFrom_exact (ε := ε) nonempty words
  refine ⟨masks, ?_, ascending, fun mask => ?_⟩
  · have smallest : (Word.sub (2 ^ size) 1 : Attempt ε Nat) = .ok (2 ^ size - 1) := by
      rw [Word.sub, if_pos (by omega)]
    simp only [ofSize, shiftLeft_one small, smallest, bind, Except.bind, listed]
  · rw [exactly, population_ones]
    constructor
    · rintro ⟨_, below, counted⟩
      exact ⟨below, counted⟩
    · rintro ⟨below, rfl⟩
      have least := two_pow_population_le mask
      exact ⟨by omega, below, rfl⟩

/-- The order in which the sets are listed: by size, then by value. -/
def Precedes (first second : Nat) : Prop :=
  population first < population second
    ∨ population first = population second ∧ first < second

/-- The sizes are gone through one after another: the sets listed for `count` of them
from `first` on are those with a size in that range. -/
theorem ofSizes_exact {limit : Nat} (words : limit ≤ 2 ^ 63) (count first : Nat)
    (positive : 0 < first) (room : first + count ≤ Word.width) :
    ∃ lists, ((List.range' first count).mapM fun size =>
        (ofSize limit size : Attempt ε (List Nat))) = .ok lists ∧
      lists.flatten.Pairwise Precedes ∧
      ∀ mask, mask ∈ lists.flatten
        ↔ mask < limit ∧ first ≤ population mask ∧ population mask < first + count := by
  induction count generalizing first with
  | zero => exact ⟨[], rfl, List.Pairwise.nil, by simp⟩
  | succ count inductionHypothesis =>
    obtain ⟨masks, listed, ascending, exactly⟩ :=
      ofSize_exact (ε := ε) positive (by omega) words
    obtain ⟨lists, rest, ordered, members⟩ :=
      inductionHypothesis (first + 1) (by omega) (by omega)
    refine ⟨masks :: lists, ?_, ?_, fun mask => ?_⟩
    · rw [List.range'_succ, List.mapM_cons, listed]
      simp [bind, Except.bind, pure, Except.pure, rest]
    · rw [List.flatten_cons, List.pairwise_append]
      refine ⟨?_, ordered, ?_⟩
      · refine (List.Pairwise.and_mem.mp ascending).imp ?_
        rintro a b ⟨inA, inB, less⟩
        have sameSize : population a = population b :=
          ((exactly a).mp inA).2.trans ((exactly b).mp inB).2.symm
        exact Or.inr ⟨sameSize, less⟩
      · intro a inA b inB
        have sizeA := ((exactly a).mp inA).2
        have sizeB := ((members b).mp inB).2.1
        exact Or.inl (by omega)
    · rw [List.flatten_cons, List.mem_append, exactly, members]
      omega

/-- All nonempty proper sets of the parties are listed, each once, by size and then
by value. -/
theorem proper_exact {parties : Nat} (few : parties ≤ maxParties) :
    ∃ masks, (proper parties : Attempt ε (List Nat)) = .ok masks ∧
      masks.Pairwise Precedes ∧
      ∀ mask, mask ∈ masks
        ↔ mask < 2 ^ parties ∧ 0 < population mask ∧ population mask < parties := by
  rcases Nat.eq_zero_or_pos parties with rfl | positive
  · exact ⟨[], by simp [proper], List.Pairwise.nil, by simp⟩
  have words : 2 ^ parties ≤ 2 ^ 63 := Nat.pow_le_pow_right (by decide) few
  have narrow : parties < Word.width := Nat.lt_of_le_of_lt few (by decide)
  obtain ⟨lists, listed, ordered, members⟩ :=
    ofSizes_exact (ε := ε) words (parties - 1) 1 (by decide) (by omega)
  refine ⟨lists.flatten, ?_, ordered, fun mask => ?_⟩
  · have inRange : ¬ (parties = 0 ∨ maxParties < parties) := by omega
    rw [proper, if_neg inRange, shiftLeft_one narrow]
    simp only [bind, Except.bind, listed, pure, Except.pure]
  · rw [members]
    omega

/-- A single bit is part of a mask exactly where the mask has a one. -/
theorem and_two_pow_eq_zero_iff (mask party : Nat) :
    mask &&& 2 ^ party = 0 ↔ mask.testBit party = false := by
  rw [Nat.and_two_pow]
  cases mask.testBit party <;> simp

/-- The members from a place on are the places of the ones there, in ascending order. -/
theorem membersFrom_eq (mask count first : Nat) (room : first + count ≤ Word.width) :
    (membersFrom mask count first : Attempt ε (List Nat))
      = .ok ((List.range' first count).filter mask.testBit) := by
  induction count generalizing first with
  | zero => rfl
  | succ count inductionHypothesis =>
    have bit : (Word.shiftLeft 1 first : Attempt ε Nat) = .ok (2 ^ first) :=
      shiftLeft_one (by omega)
    have rest := inductionHypothesis (first + 1) (by omega)
    rw [membersFrom, bit, List.range'_succ, List.filter_cons]
    simp only [bind, Except.bind, rest, pure, Except.pure, and_two_pow_eq_zero_iff]
    cases mask.testBit first <;> simp

/-- The members of a mask are the places of its ones, in ascending order. -/
theorem members_eq {mask parties : Nat} (few : parties ≤ Word.width) :
    (members mask parties : Attempt ε (List Nat))
      = .ok ((List.range parties).filter mask.testBit) := by
  rw [members, membersFrom_eq mask parties 0 (by omega), List.range_eq_range']

/-- A mask of the parties has as many members as ones. -/
theorem length_members {mask parties : Nat} (bound : mask < 2 ^ parties) :
    ((List.range parties).filter mask.testBit).length = population mask := by
  induction parties generalizing mask with
  | zero =>
    have empty : mask = 0 := by simpa using bound
    simp [empty]
  | succ parties inductionHypothesis =>
    rw [Nat.pow_succ] at bound
    obtain ⟨rest, rfl | rfl⟩ := exists_bit mask
    · have shifted : (fun party => (2 * rest).testBit (party + 1)) = rest.testBit := by
        funext party
        rw [Nat.testBit_succ, Nat.mul_div_cancel_left _ (by decide)]
      rw [List.range_succ_eq_map, List.filter_cons, List.filter_map, population_double]
      simp [Function.comp_def, shifted, inductionHypothesis (by omega : rest < 2 ^ parties)]
    · have shifted : (fun party => (2 * rest + 1).testBit (party + 1)) = rest.testBit := by
        funext party
        have half : (2 * rest + 1) / 2 = rest := by omega
        rw [Nat.testBit_succ, half]
      rw [List.range_succ_eq_map, List.filter_cons, List.filter_map, population_double_succ]
      simp [Function.comp_def, shifted, inductionHypothesis (by omega : rest < 2 ^ parties)]

/-- Masks of the parties with the same members are the same. -/
theorem eq_of_members_eq {first second parties : Nat} (firstBound : first < 2 ^ parties)
    (secondBound : second < 2 ^ parties)
    (same : (List.range parties).filter first.testBit
      = (List.range parties).filter second.testBit) : first = second := by
  apply Nat.eq_of_testBit_eq
  intro party
  by_cases inside : party < parties
  · have agree : party ∈ (List.range parties).filter first.testBit
        ↔ party ∈ (List.range parties).filter second.testBit := by rw [same]
    simp only [List.mem_filter, List.mem_range, inside, true_and] at agree
    exact Bool.eq_iff_iff.mpr agree
  · have beyond {mask : Nat} (bound : mask < 2 ^ parties) : mask.testBit party = false :=
      Nat.testBit_lt_two_pow (bound.trans_le (Nat.pow_le_pow_right (by decide) (by omega)))
    rw [beyond firstBound, beyond secondBound]

/-- Every choice of parties is the members of some mask. -/
theorem exists_mask (parties : Nat) (chosen : Nat → Bool) :
    ∃ mask < 2 ^ parties,
      (List.range parties).filter mask.testBit = (List.range parties).filter chosen := by
  refine ⟨Nat.ofBits fun party : Fin parties => chosen party, Nat.ofBits_lt_two_pow _, ?_⟩
  apply List.filter_congr
  intro party inside
  exact Nat.testBit_ofBits_lt _ party (List.mem_range.mp inside)

end Nonlocal.PartySet
