import Mathlib.Algebra.Order.Field.Power
import Mathlib.Data.Nat.Cast.Order.Field
import Mathlib.Tactic.FieldSimp
import Mathlib.Tactic.GCongr
import Mathlib.Tactic.Linarith
import Mathlib.Tactic.Positivity
import Mathlib.Tactic.Ring
import Nonlocal.Decimal.Shortest

/-!
# The shortest decimal reads back

The decimal that is found for a binary64 number lies in the interval of the reals that
round to this number, and the intervals of two different numbers have no real in common.
So the decimal belongs to one number only. Both facts are about exact rationals: the
interval is counted in quarters of the last binary place, and a decimal grid fine enough
for a step to fit into the interval has a point in it.
-/

namespace Nonlocal.Decimal

/-- The number that scaled digits stand for. -/
def Scaled.value (scaled : Scaled) : ℚ := scaled.digits * 10 ^ scaled.exponent

/-- What the fields of a finite binary64 number can be: only the numbers with the least
exponent may lack the leading bit. -/
structure Canonical (significand : Nat) (exponent : Int) : Prop where
  below : significand < 2 * Binary64.leadingBit
  least : -1074 ≤ exponent
  leading : -1074 < exponent → Binary64.leadingBit ≤ significand

namespace Shortest

/-- Whether a real lies in the interval, when one quarter is `quarter`. -/
def Interval.Contains (range : Interval) (quarter point : ℚ) : Prop :=
  if range.closed then range.low * quarter ≤ point ∧ point ≤ range.high * quarter
  else range.low * quarter < point ∧ point < range.high * quarter

/-- What is strictly between the ends of an interval is in it. -/
theorem Interval.Contains.of_between {range : Interval} {quarter point : ℚ}
    (above : range.low * quarter < point) (below : point < range.high * quarter) :
    range.Contains quarter point := by
  unfold Interval.Contains
  split
  · exact ⟨above.le, below.le⟩
  · exact ⟨above, below⟩

/-- The test on numerators over one denominator is the test on the points. -/
theorem Interval.holds_iff (range : Interval) (unit point denominator : Nat)
    (positive : 0 < denominator) :
    range.holds unit (point * denominator) = true
      ↔ range.Contains ((unit : ℚ) / denominator) point := by
  have above : (0 : ℚ) < denominator := by exact_mod_cast positive
  unfold Interval.holds Interval.Contains
  split
  · simp only [Bool.and_eq_true, decide_eq_true_eq, mul_div_assoc', div_le_iff₀ above,
      le_div_iff₀ above]
    norm_cast
  · simp only [Bool.and_eq_true, decide_eq_true_eq, mul_div_assoc', div_lt_iff₀ above,
      lt_div_iff₀ above]
    norm_cast

/-- Counting in other steps does not move a point out of an interval. -/
theorem Interval.contains_scaled (range : Interval) {quarter point factor : ℚ}
    (positive : 0 < factor) :
    range.Contains (quarter * factor) (point * factor) ↔ range.Contains quarter point := by
  unfold Interval.Contains
  split <;>
    simp only [← mul_assoc, mul_le_mul_iff_of_pos_right positive,
      mul_lt_mul_iff_of_pos_right positive]

section Apart

variable {significand other : Nat} {exponent exponent' : Int}

/-- Where two intervals meet at all, the ends that meet do not belong to both. -/
theorem not_contains_both {first second : Interval} {quarter quarter' point : ℚ}
    (meet : first.high * quarter ≤ second.low * quarter')
    (strict : first.closed = true → second.closed = true →
      first.high * quarter < second.low * quarter')
    (inFirst : first.Contains quarter point) : ¬second.Contains quarter' point := by
  intro inSecond
  unfold Interval.Contains at inFirst inSecond
  split at inFirst <;> split at inSecond
  · next closed closed' => linarith [strict closed closed', inFirst.2, inSecond.1]
  · linarith [inFirst.2, inSecond.1]
  · linarith [inFirst.2, inSecond.1]
  · linarith [inFirst.2, inSecond.1]

/-- The lower end is two quarters below the number, or one quarter if the numbers below are
closer. -/
theorem interval_low (significand : Nat) (exponent : Int) :
    (interval significand exponent).low = 4 * significand
      - if Binary64.narrowBelow significand exponent then 1 else 2 := rfl

/-- Numbers below are closer exactly at the least significand with a leading bit, where a
smaller exponent is left. -/
theorem narrowBelow_iff (significand : Nat) (exponent : Int) :
    Binary64.narrowBelow significand exponent = true
      ↔ significand = Binary64.leadingBit ∧ -1074 < exponent := by
  simp [Binary64.narrowBelow]

/-- Neighbours of one exponent have intervals that meet in an end at most. -/
theorem apart_of_significand (canonical : Canonical significand exponent)
    (less : significand < other) {point : ℚ}
    (inside : (interval significand exponent).Contains (2 ^ (exponent - 2)) point) :
    ¬(interval other exponent).Contains (2 ^ (exponent - 2)) point := by
  have positive : (0 : ℚ) < 2 ^ (exponent - 2) := by positivity
  have wide : ¬Binary64.narrowBelow other exponent = true := by
    rw [narrowBelow_iff]
    rintro ⟨first, above⟩
    have leading := canonical.leading above
    omega
  have low : (interval other exponent).low = 4 * other - 2 := by
    rw [interval_low, if_neg wide]
  apply not_contains_both _ _ inside
  · gcongr
    rw [low]
    simp only [interval]
    omega
  · intro even even'
    gcongr
    rw [low]
    simp only [interval, decide_eq_true_eq] at even even' ⊢
    omega

/-- The last interval of an exponent ends where the first of a greater one starts, or
before; and before if the number is even. -/
theorem high_le_low (canonical : Canonical significand exponent)
    (leading : Binary64.leadingBit ≤ other) (greater : -1074 < exponent') :
    (interval significand exponent).high ≤ 2 * (interval other exponent').low
      ∧ (significand % 2 = 0 →
        (interval significand exponent).high < 2 * (interval other exponent').low) := by
  have below := canonical.below
  have bit : 2 ≤ Binary64.leadingBit ∧ Binary64.leadingBit % 2 = 0 := by decide
  have high : (interval significand exponent).high = 4 * significand + 2 := rfl
  rw [high, interval_low]
  obtain first | later := leading.eq_or_lt
  · rw [if_pos ((narrowBelow_iff other exponent').mpr ⟨first.symm, greater⟩)]
    omega
  · rw [if_neg fun narrow => later.ne' ((narrowBelow_iff other exponent').mp narrow).1]
    omega

/-- Intervals of different exponents meet in an end at most. -/
theorem apart_of_exponent (canonical : Canonical significand exponent)
    (canonical' : Canonical other exponent') (less : exponent < exponent') {point : ℚ}
    (inside : (interval significand exponent).Contains (2 ^ (exponent - 2)) point) :
    ¬(interval other exponent').Contains (2 ^ (exponent' - 2)) point := by
  have positive : (0 : ℚ) < 2 ^ (exponent - 2) := by positivity
  have finer : (2 : ℚ) * 2 ^ (exponent - 2) ≤ 2 ^ (exponent' - 2) := by
    rw [← zpow_one_add₀ two_ne_zero]
    exact zpow_le_zpow_right₀ one_le_two (by omega)
  have greater : -1074 < exponent' := canonical.least.trans_lt less
  obtain ⟨ends, strictly⟩ := high_le_low canonical (canonical'.leading greater) greater
  have scaled : ((2 * (interval other exponent').low : Nat) : ℚ) * 2 ^ (exponent - 2)
      ≤ (interval other exponent').low * 2 ^ (exponent' - 2) := by
    calc ((2 * (interval other exponent').low : Nat) : ℚ) * 2 ^ (exponent - 2)
        = (interval other exponent').low * (2 * 2 ^ (exponent - 2)) := by push_cast; ring
      _ ≤ _ := by gcongr
  apply not_contains_both _ _ inside
  · refine le_trans ?_ scaled
    gcongr
  · intro even even'
    refine lt_of_lt_of_le ?_ scaled
    gcongr
    exact strictly (of_decide_eq_true even)

/-- A real rounds to one number only. -/
theorem fields_unique (canonical : Canonical significand exponent)
    (canonical' : Canonical other exponent') {point : ℚ}
    (inside : (interval significand exponent).Contains (2 ^ (exponent - 2)) point)
    (inside' : (interval other exponent').Contains (2 ^ (exponent' - 2)) point) :
    significand = other ∧ exponent = exponent' := by
  obtain less | rfl | greater := lt_trichotomy exponent exponent'
  · exact (apart_of_exponent canonical canonical' less inside inside').elim
  · refine ⟨?_, rfl⟩
    obtain less | same | greater := lt_trichotomy significand other
    · exact (apart_of_significand canonical less inside inside').elim
    · exact same
    · exact (apart_of_significand canonical' greater inside' inside).elim
  · exact (apart_of_exponent canonical' canonical greater inside' inside).elim

end Apart

/-- The number that a quotient stands for. -/
def Ratio.value (ratio : Ratio) : ℚ := ratio.numerator / ratio.denominator

/-- Scaling a quotient multiplies by the power. -/
theorem Ratio.scale_value (ratio : Ratio) (base : Nat) (exponent : Int) :
    (ratio.scale base exponent).value = ratio.value * base ^ exponent := by
  unfold Ratio.scale Ratio.value
  split
  · next nonnegative =>
    obtain ⟨power, rfl⟩ := Int.eq_ofNat_of_zero_le nonnegative
    simp [div_mul_eq_mul_div]
  · next negative =>
    obtain ⟨power, rfl⟩ : ∃ power : Nat, exponent = -power :=
      ⟨(-exponent).toNat, by omega⟩
    simp only [zpow_neg, zpow_natCast, neg_neg, Int.toNat_natCast, Nat.pow_eq]
    push_cast
    rw [← div_div, div_eq_mul_inv _ ((base : ℚ) ^ power)]

/-- Scaling keeps the denominator positive. -/
theorem Ratio.scale_denominator_pos {ratio : Ratio} {base : Nat}
    (positive : 0 < ratio.denominator) (inhabited : 0 < base) (exponent : Int) :
    0 < (ratio.scale base exponent).denominator := by
  unfold Ratio.scale
  split
  · exact positive
  · exact Nat.mul_pos positive (Nat.pow_pos inhabited)

section Search

variable {tie : Tie} {range : Interval} {exponent grid : Int}

/-- A quarter of the last binary place, counted in steps of a decimal grid. -/
def gridUnit (exponent grid : Int) : Ratio :=
  (Ratio.mk 1 1).scale 2 (exponent - 2) |>.scale 10 (-grid)

/-- The quarter has a positive denominator. -/
theorem gridUnit_denominator_pos (exponent grid : Int) :
    0 < (gridUnit exponent grid).denominator :=
  Ratio.scale_denominator_pos (Ratio.scale_denominator_pos Nat.one_pos Nat.two_pos _)
    (by decide) _

/-- The quarter is its number of steps times the length of a step. -/
theorem gridUnit_value (exponent grid : Int) :
    (gridUnit exponent grid).value * 10 ^ grid = 2 ^ (exponent - 2) := by
  have cancel : (10 : ℚ) ^ (-grid) * 10 ^ grid = 1 := by
    rw [← zpow_add₀ (by norm_num), neg_add_cancel, zpow_zero]
  have one : (Ratio.mk 1 1).value = 1 := by simp [Ratio.value]
  rw [gridUnit, Ratio.scale_value, Ratio.scale_value, one, one_mul]
  push_cast
  rw [mul_assoc, cancel, mul_one]

/-- The test on a grid point is whether it lies in the interval. -/
theorem holds_gridUnit_iff (range : Interval) (exponent grid : Int) (digits : Nat) :
    range.holds (gridUnit exponent grid).numerator
        (digits * (gridUnit exponent grid).denominator) = true
      ↔ range.Contains (2 ^ (exponent - 2)) (Scaled.value ⟨digits, grid⟩) := by
  have step : (0 : ℚ) < 10 ^ grid := by positivity
  rw [range.holds_iff _ _ _ (gridUnit_denominator_pos exponent grid),
    ← range.contains_scaled step, ← gridUnit_value exponent grid]
  rfl

/-- A point of the grid that is taken lies in the interval. -/
theorem onGrid_contains {digits : Nat} (found : onGrid tie range exponent grid = some digits) :
    range.Contains (2 ^ (exponent - 2)) (Scaled.value ⟨digits, grid⟩) := by
  rw [← holds_gridUnit_iff]
  simp only [onGrid] at found
  split at found
  · cases found
  · next holdsBelow _ =>
    cases found
    exact holdsBelow
  · next _ holdsAbove =>
    cases found
    exact holdsAbove
  · next holdsBelow holdsAbove =>
    cases tie <;> split_ifs at found <;> cases found <;> assumption

/-- The number of steps of a grid up to the number that an interval belongs to. -/
def gridFloor (range : Interval) (exponent grid : Int) : Nat :=
  range.value * (gridUnit exponent grid).numerator / (gridUnit exponent grid).denominator

/-- The number lies between two neighbouring points of the grid. -/
theorem gridFloor_spec (range : Interval) (exponent grid : Int) :
    Scaled.value ⟨gridFloor range exponent grid, grid⟩ ≤ range.value * 2 ^ (exponent - 2)
      ∧ range.value * 2 ^ (exponent - 2)
        < Scaled.value ⟨gridFloor range exponent grid + 1, grid⟩ := by
  have step : (0 : ℚ) < 10 ^ grid := by positivity
  have denominator : (0 : ℚ) < (gridUnit exponent grid).denominator := by
    exact_mod_cast gridUnit_denominator_pos exponent grid
  have counted : (range.value : ℚ) * 2 ^ (exponent - 2)
      = (range.value * (gridUnit exponent grid).numerator : Nat)
        / ((gridUnit exponent grid).denominator : Nat) * 10 ^ grid := by
    rw [← gridUnit_value exponent grid, Ratio.value]
    push_cast
    ring
  rw [counted, Scaled.value, Scaled.value]
  constructor
  · gcongr
    exact Nat.cast_div_le
  · gcongr
    have next := Nat.lt_mul_div_succ (range.value * (gridUnit exponent grid).numerator)
      (gridUnit_denominator_pos exponent grid)
    rw [div_lt_iff₀ denominator, mul_comm (Nat.cast _)]
    exact_mod_cast next

/-- If no point of the grid is taken, the two points around the number are outside. -/
theorem not_contains_of_onGrid (missing : onGrid tie range exponent grid = none) :
    ¬range.Contains (2 ^ (exponent - 2)) (Scaled.value ⟨gridFloor range exponent grid, grid⟩)
      ∧ ¬range.Contains (2 ^ (exponent - 2))
        (Scaled.value ⟨gridFloor range exponent grid + 1, grid⟩) := by
  rw [← holds_gridUnit_iff, ← holds_gridUnit_iff]
  simp only [onGrid] at missing
  split at missing
  · next notBelow notAbove => exact ⟨ne_true_of_eq_false notBelow, ne_true_of_eq_false notAbove⟩
  · cases missing
  · cases missing
  · cases tie <;> split_ifs at missing

/-- Where no point of the grid is taken, the interval fits between two of them. -/
theorem width_le_of_onGrid (low : range.low < range.value) (high : range.value < range.high)
    (missing : onGrid tie range exponent grid = none) :
    ((range.high : ℚ) - range.low) * 2 ^ (exponent - 2) ≤ 10 ^ grid := by
  have quarter : (0 : ℚ) < 2 ^ (exponent - 2) := by positivity
  obtain ⟨start, stop⟩ := gridFloor_spec range exponent grid
  obtain ⟨notBelow, notAbove⟩ := not_contains_of_onGrid missing
  set below := gridFloor range exponent grid
  have lowEnd : Scaled.value ⟨below, grid⟩ ≤ range.low * 2 ^ (exponent - 2) := by
    by_contra inside
    refine notBelow (Interval.Contains.of_between (not_le.mp inside) (start.trans_lt ?_))
    gcongr
  have highEnd : range.high * 2 ^ (exponent - 2) ≤ Scaled.value ⟨below + 1, grid⟩ := by
    by_contra inside
    refine notAbove (Interval.Contains.of_between (lt_trans ?_ stop) (not_le.mp inside))
    gcongr
  have apart : Scaled.value ⟨below + 1, grid⟩ = Scaled.value ⟨below, grid⟩ + 10 ^ grid := by
    simp only [Scaled.value]
    push_cast
    ring
  linarith

/-- The search ends at a point of the interval if its finest grid has one. -/
theorem search_contains {tries : Nat} {start : Int}
    (fine : onGrid tie range exponent (start - tries) ≠ none) :
    range.Contains (2 ^ (exponent - 2)) (search tie range exponent (tries + 1) start).value := by
  induction tries generalizing start with
  | zero =>
    rw [Int.natCast_zero, sub_zero] at fine
    obtain ⟨digits, found⟩ := Option.ne_none_iff_exists'.mp fine
    simpa only [search, found] using onGrid_contains found
  | succ tries ih =>
    rw [search]
    split
    · next digits found => exact onGrid_contains found
    · apply ih
      rwa [show start - 1 - (tries : Int) = start - (tries + 1 : Nat) by push_cast; ring]

end Search

/-- Moving zeros into the exponent does not change the number. -/
theorem dropZeros_value (tries : Nat) (scaled : Scaled) :
    (dropZeros tries scaled).value = scaled.value := by
  induction tries generalizing scaled with
  | zero => rfl
  | succ tries ih =>
    rw [dropZeros]
    split
    · next zero =>
      rw [ih]
      obtain ⟨tens, even⟩ := Nat.dvd_of_mod_eq_zero zero
      simp only [Scaled.value, even, Nat.mul_div_cancel_left tens (show 0 < 10 by decide)]
      rw [zpow_add_one₀ (by norm_num)]
      push_cast
      ring
    · rfl

/-- A positive count has its number of digits because it reaches the least count of so
many. -/
theorem pow_digitCount_le {count : Nat} (positive : 0 < count) :
    10 ^ (digitCount count - 1) ≤ count := by
  by_contra below
  have fewer := not_le.mp below
  obtain one | more := Nat.eq_zero_or_pos (digitCount count - 1)
  · rw [one] at fewer
    omega
  · have shorter := (Nat.length_toDigits_le_iff (by decide) more).mpr fewer
    unfold digitCount at shorter more
    omega

/-- A count is below the least count of more digits. -/
theorem lt_pow_digitCount (count : Nat) : count < 10 ^ digitCount count :=
  (Nat.length_toDigits_le_iff (by decide) Nat.length_toDigits_pos).mp le_rfl

/-- A positive quotient is not less than a tenth of the power that its magnitude says. -/
theorem magnitude_le {ratio : Ratio} (numerator : 0 < ratio.numerator)
    (denominator : 0 < ratio.denominator) : (10 : ℚ) ^ (magnitude ratio - 1) ≤ ratio.value := by
  have above : (0 : ℚ) < ratio.denominator := by exact_mod_cast denominator
  have above' : (0 : ℚ) < ratio.numerator := by exact_mod_cast numerator
  simp only [magnitude, Ratio.value]
  split
  · next whole =>
    have digits := pow_digitCount_le whole
    have digitsPositive : 0 < digitCount (ratio.numerator / ratio.denominator) :=
      Nat.length_toDigits_pos
    calc (10 : ℚ) ^ (Int.ofNat (digitCount (ratio.numerator / ratio.denominator)) - 1)
        = (10 ^ (digitCount (ratio.numerator / ratio.denominator) - 1) : Nat) := by
          rw [Nat.cast_pow, ← zpow_natCast, Int.ofNat_eq_natCast]
          congr 1
          omega
      _ ≤ (ratio.numerator / ratio.denominator : Nat) := by exact_mod_cast digits
      _ ≤ ratio.numerator / ratio.denominator := Nat.cast_div_le
  · have digits := lt_pow_digitCount (ratio.denominator / ratio.numerator)
    have wide : ratio.denominator
        ≤ ratio.numerator * 10 ^ digitCount (ratio.denominator / ratio.numerator) := by
      have next := Nat.lt_mul_div_succ ratio.denominator numerator
      exact next.le.trans (Nat.mul_le_mul_left _ digits)
    rw [show (1 : Int) - Int.ofNat (digitCount (ratio.denominator / ratio.numerator)) - 1
        = -(digitCount (ratio.denominator / ratio.numerator) : Int) by simp,
      zpow_neg, zpow_natCast, le_div_iff₀ above, inv_mul_le_iff₀ (by positivity), mul_comm]
    exact_mod_cast wide

/-- The lower end as a rational, for a number that is not 0. -/
theorem interval_low_cast {significand : Nat} (exponent : Int) (positive : 0 < significand) :
    ((interval significand exponent).low : ℚ) = 4 * significand
      - (if Binary64.narrowBelow significand exponent then 1 else 2) := by
  rw [interval_low]
  split <;> push_cast [show 1 ≤ 4 * significand by omega, show 2 ≤ 4 * significand by omega] <;>
    rfl

/-- Seventeen digits are enough: the interval is wider than a step of their grid. -/
theorem width_gt {significand : Nat} {exponent start : Int}
    (canonical : Canonical significand exponent) (positive : 0 < significand)
    (large : (10 : ℚ) ^ start ≤ significand * 2 ^ exponent) :
    (10 : ℚ) ^ (start - 16) < (((interval significand exponent).high : ℚ)
      - (interval significand exponent).low) * 2 ^ (exponent - 2) := by
  have binary : (0 : ℚ) < 2 ^ exponent := by positivity
  have quarter : (2 : ℚ) ^ (exponent - 2) = 2 ^ exponent / 4 := by
    rw [zpow_sub₀ two_ne_zero]
    norm_num
  have sixteen : (10 : ℚ) ^ (start - 16) = 10 ^ start / 10 ^ 16 := by
    rw [zpow_sub₀ (by norm_num)]
    norm_num
  have high : ((interval significand exponent).high : ℚ) = 4 * significand + 2 := by
    simp [interval]
  rw [interval_low_cast exponent positive, high, quarter, sixteen]
  refine (div_le_div_of_nonneg_right large (by norm_num)).trans_lt ?_
  split
  · -- A narrow interval belongs to the least significand.
    next narrow =>
    rw [((narrowBelow_iff significand exponent).mp narrow).1,
      show Binary64.leadingBit = 2 ^ 52 from rfl]
    push_cast
    linarith
  · have below : (significand : ℚ) < 2 ^ 53 := by
      have bound := canonical.below
      rw [show 2 * Binary64.leadingBit = 2 ^ 53 from rfl] at bound
      exact_mod_cast bound
    have bounded : significand * (2 : ℚ) ^ exponent ≤ 2 ^ 53 * 2 ^ exponent := by gcongr
    linarith

/-- A positive number as a quotient. -/
theorem ratio_spec {significand : Nat} (positive : 0 < significand) (exponent : Int) :
    0 < (Ratio.scale ⟨significand, 1⟩ 2 exponent).numerator
      ∧ 0 < (Ratio.scale ⟨significand, 1⟩ 2 exponent).denominator
      ∧ (Ratio.scale ⟨significand, 1⟩ 2 exponent).value = significand * 2 ^ exponent := by
  have value : (Ratio.scale ⟨significand, 1⟩ 2 exponent).value = significand * 2 ^ exponent := by
    rw [Ratio.scale_value]
    simp [Ratio.value]
  have denominator : 0 < (Ratio.scale ⟨significand, 1⟩ 2 exponent).denominator :=
    Ratio.scale_denominator_pos Nat.one_pos Nat.two_pos exponent
  refine ⟨?_, denominator, value⟩
  have above : (0 : ℚ) < (Ratio.scale ⟨significand, 1⟩ 2 exponent).value := by
    rw [value]
    positivity
  rw [Ratio.value, div_pos_iff_of_pos_right (by exact_mod_cast denominator)] at above
  exact_mod_cast above

/-- The shortest decimal of a number lies in the number's interval. -/
theorem ofBinary_contains (tie : Tie) {significand : Nat} {exponent : Int}
    (canonical : Canonical significand exponent) :
    (interval significand exponent).Contains (2 ^ (exponent - 2))
      (ofBinary tie significand exponent).value := by
  obtain rfl | positive := Nat.eq_zero_or_pos significand
  · have quarter : (0 : ℚ) ≤ 2 ^ (exponent - 2) := by positivity
    simp [Interval.Contains, ofBinary, Scaled.value, interval, quarter]
  · obtain ⟨numerator, denominator, value⟩ := ratio_spec positive exponent
    have large := value ▸ magnitude_le numerator denominator
    rw [ofBinary, if_neg positive.ne', dropZeros_value]
    apply search_contains
    intro missing
    refine (width_gt canonical positive large).not_ge ?_
    exact width_le_of_onGrid (by simp only [interval]; split <;> omega)
      (by simp only [interval]; omega) missing

/-- Two numbers with one shortest decimal have the same fields. -/
theorem ofBinary_value_injective (tie : Tie) {significand other : Nat} {exponent exponent' : Int}
    (canonical : Canonical significand exponent) (canonical' : Canonical other exponent')
    (same : (ofBinary tie significand exponent).value = (ofBinary tie other exponent').value) :
    significand = other ∧ exponent = exponent' :=
  fields_unique canonical canonical' (ofBinary_contains tie canonical)
    (same ▸ ofBinary_contains tie canonical')

end Shortest

end Nonlocal.Decimal
