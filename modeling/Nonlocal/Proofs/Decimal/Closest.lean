import Nonlocal.Proofs.Decimal.Arithmetic
import Nonlocal.Proofs.Decimal.Plain

/-!
# The closest number

A magnitude is rounded to the number to which it is closest, and of two numbers at the same
distance to the one with an even significand. This says nothing of how numbers are laid out
or computed. The next number above a number is one unit of the last place away, and the next
one below it is one unit away, or half of one at the start of a binade. So the magnitudes that
are closest to a number are those of its interval, and what an operation rounds to is the
closest number.
-/

namespace Nonlocal.Decimal

/-- A number is the closest one to a magnitude, whatever the exponents of the others. If another
one is at the same distance then the significand is even. -/
structure Closest (magnitude : ℚ) (significand : Nat) (exponent : Int) : Prop where
  canonical : Canonical significand exponent
  near : ∀ other exponent', Canonical other exponent' →
    |magnitude - significand * 2 ^ exponent| ≤ |magnitude - other * 2 ^ exponent'|
  even : ∀ other exponent', Canonical other exponent' →
    (other, exponent') ≠ (significand, exponent) →
    |magnitude - significand * 2 ^ exponent| = |magnitude - other * 2 ^ exponent'| →
    significand % 2 = 0

/-- A number is the one nearest to a magnitude with a sign. If the closest one is out of range
then the number is infinite. -/
def Nearest (negative : Bool) (magnitude : ℚ) (number : Float) : Prop :=
  ∃ significand exponent, Closest magnitude significand exponent
    ∧ Binary64.ofFloat number
      = if exponent ≤ 971 then .finite negative significand exponent else .infinite negative

section Distances

variable {low high point : ℚ}

/-- Up to the middle between two numbers the lower one is closer. -/
theorem abs_sub_low_le_iff (less : low < high) :
    |point - low| ≤ |point - high| ↔ 2 * point ≤ low + high := by
  rw [← sq_le_sq]
  constructor <;> intro <;> nlinarith

/-- From the middle between two numbers the upper one is closer. -/
theorem abs_sub_high_le_iff (less : low < high) :
    |point - high| ≤ |point - low| ↔ low + high ≤ 2 * point := by
  rw [← sq_le_sq]
  constructor <;> intro <;> nlinarith

end Distances

section Neighbours

variable {significand other : Nat} {exponent exponent' : Int}

/-- How far the next number below a number is away, in units of the last place. -/
def gapBelow (significand : Nat) (exponent : Int) : ℚ :=
  if Binary64.narrowBelow significand exponent then 1 / 2 else 1

/-- The numbers below a number are at most one unit away. -/
theorem gapBelow_le (significand : Nat) (exponent : Int) : gapBelow significand exponent ≤ 1 := by
  unfold gapBelow
  split <;> norm_num

/-- The next number below a number is below it. -/
theorem gapBelow_pos (significand : Nat) (exponent : Int) : 0 < gapBelow significand exponent := by
  unfold gapBelow
  split <;> norm_num

/-- A number with a greater exponent is at least one unit above a number. -/
theorem above_of_exponent (canonical : Canonical significand exponent)
    (canonical' : Canonical other exponent') (greater : exponent < exponent') :
    (significand + 1) * (2 : ℚ) ^ exponent ≤ other * 2 ^ exponent' := by
  have below : significand + 1 ≤ 2 ^ 53 := canonical.below
  have leading : 2 ^ 52 ≤ other := canonical'.leading (canonical.least.trans_lt greater)
  calc (significand + 1) * (2 : ℚ) ^ exponent ≤ 2 ^ 53 * 2 ^ exponent := by
        gcongr
        exact_mod_cast below
    _ = 2 ^ 52 * 2 ^ (exponent + 1) := by
        rw [zpow_add_one₀ two_ne_zero]
        ring
    _ ≤ other * 2 ^ exponent' := by
        gcongr
        · exact_mod_cast leading
        · exact one_le_two
        · omega

/-- A number with a smaller exponent is below the gap. -/
theorem below_of_exponent (canonical : Canonical significand exponent)
    (canonical' : Canonical other exponent') (smaller : exponent' < exponent) :
    other * (2 : ℚ) ^ exponent'
      ≤ (significand - gapBelow significand exponent) * 2 ^ exponent := by
  have greater : -1074 < exponent := canonical'.least.trans_lt smaller
  have most : other + 1 ≤ 2 ^ 53 := canonical'.below
  have most' : (other : ℚ) ≤ 2 * (2 ^ 52 - 1 / 2) := by
    have : (other : ℚ) + 1 ≤ 2 ^ 53 := by exact_mod_cast most
    linarith
  have room : (2 ^ 52 - 1 / 2 : ℚ) ≤ significand - gapBelow significand exponent := by
    have leading : 2 ^ 52 ≤ significand := canonical.leading greater
    unfold gapBelow
    split
    · have : (2 ^ 52 : ℚ) ≤ significand := by exact_mod_cast leading
      linarith
    · next wide =>
      have later : 2 ^ 52 + 1 ≤ significand := by
        refine Nat.lt_of_le_of_ne leading fun first => wide ?_
        exact (Shortest.narrowBelow_iff _ _).mpr ⟨first.symm, greater⟩
      have : (2 ^ 52 + 1 : ℚ) ≤ significand := by exact_mod_cast later
      linarith
  calc other * (2 : ℚ) ^ exponent' ≤ 2 * (2 ^ 52 - 1 / 2) * 2 ^ (exponent - 1) := by
        gcongr
        · exact one_le_two
        · omega
    _ = (2 ^ 52 - 1 / 2) * 2 ^ exponent := by
        rw [mul_comm 2, mul_assoc, ← zpow_one_add₀ two_ne_zero, add_sub_cancel]
    _ ≤ _ := by gcongr

/-- Another number is at least one unit above a number, or below the gap. -/
theorem above_or_below (canonical : Canonical significand exponent)
    (canonical' : Canonical other exponent')
    (differ : (other, exponent') ≠ (significand, exponent)) :
    (significand + 1) * (2 : ℚ) ^ exponent ≤ other * 2 ^ exponent'
      ∨ other * (2 : ℚ) ^ exponent'
        ≤ (significand - gapBelow significand exponent) * 2 ^ exponent := by
  obtain greater | rfl | smaller := lt_trichotomy exponent exponent'
  · exact .inl (above_of_exponent canonical canonical' greater)
  · have positive : (0 : ℚ) < 2 ^ exponent := by positivity
    have gap := gapBelow_le significand exponent
    rcases Nat.lt_or_gt_of_ne (show other ≠ significand from fun same => differ (by rw [same])) with
      less | more
    · have : (other : ℚ) + 1 ≤ significand := by exact_mod_cast less
      right
      gcongr
      linarith
    · have : (significand : ℚ) + 1 ≤ other := by exact_mod_cast more
      left
      gcongr
  · exact .inr (below_of_exponent canonical canonical' smaller)

/-- There is a number one unit above a number. -/
theorem exists_above (canonical : Canonical significand exponent) :
    ∃ other exponent', Canonical other exponent'
      ∧ (other : ℚ) * 2 ^ exponent' = (significand + 1) * 2 ^ exponent := by
  have least := canonical.least
  by_cases room : significand + 1 < 2 ^ 53
  · refine ⟨significand + 1, exponent, ⟨room, least, fun above => ?_⟩, by push_cast; rfl⟩
    exact (canonical.leading above).trans (Nat.le_succ _)
  · have below : significand < 2 ^ 53 := canonical.below
    have full : (significand : ℚ) + 1 = 2 ^ 53 := by
      have : significand + 1 = 2 ^ 53 := by omega
      exact_mod_cast this
    refine ⟨2 ^ 52, exponent + 1, ⟨by decide, by omega, fun _ => le_rfl⟩, ?_⟩
    rw [full, zpow_add_one₀ two_ne_zero]
    push_cast
    ring

/-- There is a number at the gap below a number that is not 0. -/
theorem exists_below (canonical : Canonical significand exponent) (positive : 0 < significand) :
    ∃ other exponent', Canonical other exponent'
      ∧ (other : ℚ) * 2 ^ exponent'
        = (significand - gapBelow significand exponent) * 2 ^ exponent := by
  have bit : Binary64.leadingBit = 2 ^ 52 := rfl
  have below := canonical.below
  by_cases narrow : Binary64.narrowBelow significand exponent = true
  · rw [gapBelow, if_pos narrow]
    obtain ⟨first, above⟩ := (Shortest.narrowBelow_iff _ _).mp narrow
    refine ⟨2 ^ 53 - 1, exponent - 1, ⟨by decide, by omega, fun _ => by decide⟩, ?_⟩
    rw [first, bit, zpow_sub_one₀ two_ne_zero]
    push_cast
    ring
  · rw [gapBelow, if_neg narrow]
    refine ⟨significand - 1, exponent, ⟨by omega, canonical.least, fun above => ?_⟩, ?_⟩
    · have leading := canonical.leading above
      have wide : significand ≠ Binary64.leadingBit := fun first =>
        narrow ((Shortest.narrowBelow_iff _ _).mpr ⟨first, above⟩)
      omega
    · rw [Nat.cast_pred positive]

end Neighbours

section Intervals

variable {magnitude : ℚ} {significand : Nat} {exponent : Int}

/-- The interval of a number goes from the middle of the gap below it to the middle of the unit
above it. The ends belong to it if the significand is even. -/
theorem contains_iff_between (nonnegative : 0 ≤ magnitude) :
    (Shortest.interval significand exponent).Contains (2 ^ (exponent - 2)) magnitude
      ↔ ((2 * significand - gapBelow significand exponent) * 2 ^ exponent ≤ 2 * magnitude
          ∧ 2 * magnitude ≤ (2 * significand + 1) * 2 ^ exponent)
        ∧ (significand % 2 = 1 →
          (2 * significand - gapBelow significand exponent) * 2 ^ exponent < 2 * magnitude
            ∧ 2 * magnitude < (2 * significand + 1) * 2 ^ exponent) := by
  have unit : (0 : ℚ) < 2 ^ exponent := by positivity
  have quarter : (2 : ℚ) ^ (exponent - 2) = 2 ^ exponent / 4 := by
    rw [zpow_sub₀ two_ne_zero]
    norm_num
  have high : ((Shortest.interval significand exponent).high : ℚ) = 4 * significand + 2 := by
    simp [Shortest.interval]
  have closed : (Shortest.interval significand exponent).closed
      = decide (significand % 2 = 0) := rfl
  rw [Shortest.Interval.Contains, closed, high, quarter]
  obtain rfl | positive := Nat.eq_zero_or_pos significand
  · have low : (Shortest.interval 0 exponent).low = 0 := by simp [Shortest.interval_low]
    have gap := mul_pos (gapBelow_pos 0 exponent) unit
    simp only [low, Nat.cast_zero]
    norm_num
    constructor
    · rintro ⟨-, below⟩
      constructor <;> linarith
    · rintro ⟨-, below⟩
      constructor <;> linarith
  · have low : ((Shortest.interval significand exponent).low : ℚ)
        = 4 * significand - 2 * gapBelow significand exponent := by
      rw [Shortest.interval_low_cast exponent positive, gapBelow]
      split <;> norm_num
    rw [low]
    generalize gapBelow significand exponent = gap
    rcases Nat.mod_two_eq_zero_or_one significand with even | odd
    · simp only [even, decide_true, if_true]
      constructor
      · rintro ⟨above, below⟩
        exact ⟨⟨by linarith, by linarith⟩, fun odd => absurd odd (by decide)⟩
      · rintro ⟨⟨above, below⟩, -⟩
        exact ⟨by linarith, by linarith⟩
    · simp only [odd]
      norm_num
      constructor
      · rintro ⟨above, below⟩
        exact ⟨⟨by linarith, by linarith⟩, by linarith, by linarith⟩
      · rintro ⟨-, above, below⟩
        exact ⟨by linarith, by linarith⟩

/-- The significand of the closest number is even if another number is at the same distance. -/
theorem Closest.even_of_equal {other : Nat} {exponent' : Int}
    (closest : Closest magnitude significand exponent) (canonical : Canonical other exponent')
    (differ : (other : ℚ) * 2 ^ exponent' ≠ significand * 2 ^ exponent)
    (equal : |magnitude - significand * 2 ^ exponent| = |magnitude - other * 2 ^ exponent'|) :
    significand % 2 = 0 := by
  refine closest.even _ _ canonical ?_ equal
  rintro ⟨⟩
  exact differ rfl

/-- A magnitude is not beyond the middle to a number above the closest one, and reaches it only if
the significand is even. -/
theorem Closest.below_middle {other : Nat} {exponent' : Int}
    (closest : Closest magnitude significand exponent) (canonical : Canonical other exponent')
    (above : (significand : ℚ) * 2 ^ exponent < other * 2 ^ exponent') :
    2 * magnitude ≤ significand * 2 ^ exponent + other * 2 ^ exponent'
      ∧ (significand % 2 = 1 →
        2 * magnitude < significand * 2 ^ exponent + other * 2 ^ exponent') := by
  have most := (abs_sub_low_le_iff above).mp (closest.near _ _ canonical)
  refine ⟨most, fun odd => lt_of_le_of_ne most fun middle => ?_⟩
  have equal := le_antisymm ((abs_sub_low_le_iff above).mpr middle.le)
    ((abs_sub_high_le_iff above).mpr middle.ge)
  have even := closest.even_of_equal canonical above.ne' equal
  omega

/-- Nor is it beyond the middle to a number below the closest one. -/
theorem Closest.above_middle {other : Nat} {exponent' : Int}
    (closest : Closest magnitude significand exponent) (canonical : Canonical other exponent')
    (below : (other : ℚ) * 2 ^ exponent' < significand * 2 ^ exponent) :
    other * 2 ^ exponent' + significand * 2 ^ exponent ≤ 2 * magnitude
      ∧ (significand % 2 = 1 →
        other * 2 ^ exponent' + significand * 2 ^ exponent < 2 * magnitude) := by
  have least := (abs_sub_high_le_iff below).mp (closest.near _ _ canonical)
  refine ⟨least, fun odd => lt_of_le_of_ne least fun middle => ?_⟩
  have equal := le_antisymm ((abs_sub_high_le_iff below).mpr middle.le)
    ((abs_sub_low_le_iff below).mpr middle.ge)
  have even := closest.even_of_equal canonical below.ne equal
  omega

/-- A number is the closest one to what lies in its interval. -/
theorem Closest.of_contains (canonical : Canonical significand exponent)
    (nonnegative : 0 ≤ magnitude)
    (inside : (Shortest.interval significand exponent).Contains (2 ^ (exponent - 2)) magnitude) :
    Closest magnitude significand exponent := by
  obtain ⟨⟨low, high⟩, strict⟩ := (contains_iff_between nonnegative).mp inside
  have unit : (0 : ℚ) < 2 ^ exponent := by positivity
  have step := mul_pos (gapBelow_pos significand exponent) unit
  refine ⟨canonical, fun other exponent' canonical' => ?_,
    fun other exponent' canonical' differ equal => ?_⟩
  · by_cases same : (other, exponent') = (significand, exponent)
    · obtain ⟨rfl, rfl⟩ := Prod.mk.inj same
      exact le_rfl
    · rcases above_or_below canonical canonical' same with above | below
      · exact (abs_sub_low_le_iff (by linarith)).mpr (by linarith)
      · exact (abs_sub_high_le_iff (by linarith)).mpr (by linarith)
  · -- With an odd significand the middles are not in the interval.
    by_contra notEven
    obtain ⟨lower, upper⟩ := strict (by omega)
    rcases above_or_below canonical canonical' differ with above | below
    · have middle := (abs_sub_high_le_iff (by linarith)).mp equal.ge
      linarith
    · have middle := (abs_sub_low_le_iff (by linarith)).mp equal.ge
      linarith

/-- The interval of a number holds the magnitudes to which it is the closest one. -/
theorem contains_iff_closest (canonical : Canonical significand exponent)
    (nonnegative : 0 ≤ magnitude) :
    (Shortest.interval significand exponent).Contains (2 ^ (exponent - 2)) magnitude
      ↔ Closest magnitude significand exponent := by
  refine ⟨.of_contains canonical nonnegative, fun closest => ?_⟩
  have unit : (0 : ℚ) < 2 ^ exponent := by positivity
  have step := mul_pos (gapBelow_pos significand exponent) unit
  obtain ⟨other, exponent', canonical', above⟩ := exists_above canonical
  obtain ⟨high, upper⟩ := closest.below_middle canonical' (by linarith)
  rw [above] at high upper
  rw [contains_iff_between nonnegative]
  obtain rfl | positive := Nat.eq_zero_or_pos significand
  · refine ⟨⟨?_, by linarith⟩, fun odd => absurd odd (by decide)⟩
    rw [Nat.cast_zero]
    linarith
  · obtain ⟨other, exponent', canonical', below⟩ := exists_below canonical positive
    obtain ⟨low, lower⟩ := closest.above_middle canonical' (by linarith)
    rw [below] at low lower
    refine ⟨⟨by linarith, by linarith⟩, fun odd => ?_⟩
    have := upper odd
    have := lower odd
    constructor <;> linarith

/-- There is one closest number. -/
theorem Closest.unique {other : Nat} {exponent' : Int} (nonnegative : 0 ≤ magnitude)
    (closest : Closest magnitude significand exponent)
    (closest' : Closest magnitude other exponent') :
    significand = other ∧ exponent = exponent' :=
  Shortest.fields_unique closest.canonical closest'.canonical
    ((contains_iff_closest closest.canonical nonnegative).mpr closest)
    ((contains_iff_closest closest'.canonical nonnegative).mpr closest')

end Intervals

section Numbers

variable {magnitude : ℚ} {number number' : Float} {negative : Bool}

/-- What an operation rounds to is the nearest number. -/
theorem Rounds.nearest (rounds : Rounds magnitude number) (nonnegative : 0 ≤ magnitude) :
    Nearest false magnitude number := by
  obtain ⟨significand, exponent, canonical, inside, fields⟩ := rounds
  exact ⟨significand, exponent, .of_contains canonical nonnegative inside, fields⟩

/-- There is one nearest number. -/
theorem Nearest.unique (nonnegative : 0 ≤ magnitude) (nearest : Nearest negative magnitude number)
    (nearest' : Nearest negative magnitude number') : number = number' := by
  obtain ⟨significand, exponent, closest, fields⟩ := nearest
  obtain ⟨significand', exponent', closest', fields'⟩ := nearest'
  obtain ⟨rfl, rfl⟩ := closest.unique nonnegative closest'
  exact Binary64.ofFloat_injective (fields.trans fields'.symm)

/-- Changing the sign of infinity. -/
theorem ofFloat_neg_of_infinite (fields : Binary64.ofFloat number = .infinite negative) :
    Binary64.ofFloat (-number) = .infinite !negative := by
  have infinities : Binary64.ofFloat (1.0 / 0.0) = .infinite false
      ∧ Binary64.ofFloat (-1.0 / 0.0) = .infinite true := by decide +kernel
  cases negative with
  | false =>
    obtain rfl := Binary64.ofFloat_injective (fields.trans infinities.1.symm)
    decide +kernel
  | true =>
    obtain rfl := Binary64.ofFloat_injective (fields.trans infinities.2.symm)
    decide +kernel

/-- The nearest number to a magnitude with the other sign is the number with the other sign. -/
theorem Nearest.neg (nearest : Nearest negative magnitude number) :
    Nearest (!negative) magnitude (-number) := by
  obtain ⟨significand, exponent, closest, fields⟩ := nearest
  refine ⟨significand, exponent, closest, ?_⟩
  split at fields
  · next inRange => rw [if_pos inRange, ofFloat_neg fields]
  · next beyond => rw [if_neg beyond, ofFloat_neg_of_infinite fields]

/-- A decimal is read as the number that is nearest to it, with its sign. -/
theorem nearest_nearestFloat (negative : Bool) (digits places : Nat) :
    Nearest negative (digits / 10 ^ places)
      (nearestFloat negative digits (-(Int.ofNat places))) := by
  have rounds : Rounds (digits / 10 ^ places)
      (Float.ofScientific digits (-(Int.ofNat places) < 0) (-(Int.ofNat places)).natAbs) := by
    rw [Int.natAbs_neg, Int.ofNat_eq_natCast, Int.natAbs_natCast]
    obtain rfl | positive := Nat.eq_zero_or_pos places
    · rw [pow_zero, div_one]
      exact rounds_ofNat digits
    · rw [decide_eq_true (by omega)]
      exact rounds_ofScientific_neg digits positive
  have nearest := rounds.nearest (by positivity)
  unfold nearestFloat
  cases negative with
  | false => exact nearest
  | true => exact nearest.neg

end Numbers

end Nonlocal.Decimal
