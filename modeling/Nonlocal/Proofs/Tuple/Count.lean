import Nonlocal.Proofs.Tuple.Codec

/-!
# Counting tuples without walking

The number of tuples of a length is a power of the radix, and counting gives it if it is a
word. A length from `lengthLimit` on is not counted, whatever the power. In a radix above 1
nothing is lost by this: the power outgrows its word long before. In radix 0 and 1 the power
is the radix itself for every positive length, and there counting fails although the walk
over all tuples ends after a single one, or before the first.
-/

namespace Nonlocal.Tuple

variable {radix length steps count : Nat}

/-- What a count is: the number of tuples, if this is a word and the length is below its
limit. -/
theorem count?_eq_some_iff :
    count? radix length = some count
      ↔ length < lengthLimit ∧ radix ^ length < Word.limit ∧ count = radix ^ length := by
  constructor
  · intro counted
    obtain ⟨exactly, word⟩ := count?_eq_some counted
    exact ⟨length_lt_of_count? counted, word, exactly⟩
  · rintro ⟨short, word, rfl⟩
    exact count?_of_lt short word

/-- One tuple, the empty one, is counted for length 0. -/
theorem count?_zero (radix : Nat) : count? radix 0 = some 1 :=
  count?_eq_some_iff.mpr ⟨by decide, Nat.pow_zero radix ▸ by decide, (Nat.pow_zero radix).symm⟩

/-- In a radix above 1 the limit on lengths refuses nothing that is a word. -/
theorem length_lt_of_word (above : 1 < radix) (word : radix ^ length < Word.limit) :
    length < lengthLimit :=
  (lt_width_of_pow_lt above word).trans (by decide)

/-- Counting fails exactly if the number of tuples is no word, or if the radix is 0 or 1 and
the length is not below its limit. -/
theorem count?_eq_none_iff :
    count? radix length = none
      ↔ Word.limit ≤ radix ^ length ∨ radix ≤ 1 ∧ lengthLimit ≤ length := by
  constructor
  · intro uncounted
    by_contra inside
    obtain ⟨word, short⟩ := not_or.mp inside
    rw [Nat.not_le] at word
    have counted : length < lengthLimit := by
      by_cases small : radix ≤ 1
      · exact Nat.lt_of_not_le fun long => short ⟨small, long⟩
      · exact length_lt_of_word (Nat.lt_of_not_le small) word
    cases (count?_of_lt counted word).symm.trans uncounted
  · intro outside
    by_contra counts
    obtain ⟨count, counted⟩ := Option.ne_none_iff_exists'.mp counts
    obtain ⟨short, word, -⟩ := count?_eq_some_iff.mp counted
    rcases outside with excess | ⟨-, long⟩
    · exact excess.not_gt word
    · exact long.not_gt short

/-- Where there are tuples, the radix of those that are few and not counted is 1. -/
theorem count?_eq_none_iff_of_pos (positive : 0 < radix) :
    count? radix length = none
      ↔ Word.limit ≤ radix ^ length ∨ radix = 1 ∧ lengthLimit ≤ length := by
  have single : radix ≤ 1 ↔ radix = 1 := by omega
  rw [count?_eq_none_iff, single]

/-- In radix 0 and 1 there are as many tuples of a positive length as the radix says. -/
theorem pow_eq_self (small : radix ≤ 1) (positive : 0 < length) : radix ^ length = radix := by
  rw [← pow_min_one small, Nat.min_eq_right positive]
  exact Nat.pow_one radix

/-- Following the walk from its first tuple meets a tuple exactly as often as there are
tuples. -/
theorem isSome_later?_iff :
    (later? radix steps (first? radix length)).isSome = true ↔ steps < radix ^ length := by
  rw [later?_first?, isSome_getElem?, length_walk]
  exact Iff.rfl

/-- What counting the tuples of a length promises: a count is given exactly if the number of
tuples is a word, it is that number, and the walk meets as many tuples and then ends. -/
structure Counted (radix length : Nat) : Prop where
  given : ∀ count, count? radix length = some count
    ↔ radix ^ length ≤ 2 ^ 64 - 1 ∧ count = radix ^ length
  refused : 2 ^ 64 - 1 < radix ^ length → count? radix length = none
  listed : ∀ count, count? radix length = some count → (walk radix length).length = count
  stepped : ∀ count, count? radix length = some count →
    ∀ steps, (later? radix steps (first? radix length)).isSome = true ↔ steps < count

/-- The promise is kept exactly where the limit on lengths refuses nothing that is a word. -/
theorem counted_iff : Counted radix length ↔ 1 < radix ∨ length < lengthLimit := by
  have greatest : ∀ value, value ≤ 2 ^ 64 - 1 ↔ value < Word.limit := fun value =>
    Nat.le_sub_one_iff_lt (by decide)
  constructor
  · intro counted
    by_contra overlong
    obtain ⟨small, long⟩ := not_or.mp overlong
    rw [Nat.not_lt] at small long
    -- the number of tuples is the radix itself, a word that is promised and not given
    have positive : 0 < length := (by decide : 0 < lengthLimit).trans_le long
    have word : radix ^ length ≤ 2 ^ 64 - 1 := by
      rw [pow_eq_self small positive]
      exact small.trans (by decide)
    have given := (counted.given (radix ^ length)).mpr ⟨word, rfl⟩
    cases given.symm.trans (count?_eq_none_iff.mpr (.inr ⟨small, long⟩))
  · intro fits
    have short (word : radix ^ length < Word.limit) : length < lengthLimit :=
      fits.elim (fun above => length_lt_of_word above word) fun short => short
    exact {
      given := fun count => by
        rw [count?_eq_some_iff, greatest]
        exact ⟨fun spec => spec.2, fun spec => ⟨short spec.1, spec⟩⟩
      refused := fun excess =>
        count?_eq_none_iff.mpr (.inl (Nat.le_of_not_lt fun word =>
          excess.not_ge ((greatest _).mpr word)))
      listed := fun count counted => by
        rw [length_walk, (count?_eq_some counted).1]
      stepped := fun count counted steps => by
        obtain ⟨-, -, rfl⟩ := count?_eq_some_iff.mp counted
        exact isSome_later?_iff }

end Nonlocal.Tuple
