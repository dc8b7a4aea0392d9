import Nonlocal.Proofs.Decimal.Plain

/-!
# How far shortest decimals extend

The search for the shortest decimal of a number starts one place below its leading digit
and ends seventeen places below it, so the digits fit a word with room to spare. The
leading digit stands where the number is, and the numbers of 64 bits lie between `10 ^ -324`
and `10 ^ 309`.
-/

namespace Nonlocal.Decimal

namespace Shortest

/-- A positive quotient is at most the power that its magnitude says. -/
theorem le_magnitude {ratio : Ratio} (numerator : 0 < ratio.numerator)
    (denominator : 0 < ratio.denominator) : ratio.value ≤ (10 : ℚ) ^ magnitude ratio := by
  have above : (0 : ℚ) < ratio.denominator := by exact_mod_cast denominator
  simp only [magnitude, Ratio.value]
  split
  · have digits := lt_pow_digitCount (ratio.numerator / ratio.denominator)
    have next := Nat.lt_mul_div_succ ratio.numerator denominator
    rw [Int.ofNat_eq_natCast, zpow_natCast, div_le_iff₀ above]
    calc (ratio.numerator : ℚ)
        ≤ (ratio.denominator * (ratio.numerator / ratio.denominator + 1) : Nat) := by
          exact_mod_cast next.le
      _ ≤ (10 ^ digitCount (ratio.numerator / ratio.denominator) * ratio.denominator : Nat) := by
          rw [mul_comm]
          exact_mod_cast Nat.mul_le_mul_right _ digits
      _ = _ := by push_cast; ring
  · next small =>
    have less : ratio.numerator < ratio.denominator := by
      by_contra reaches
      exact small (Nat.div_pos (not_lt.mp reaches) denominator)
    have positive : 0 < ratio.denominator / ratio.numerator := Nat.div_pos less.le numerator
    have digits := pow_digitCount_le positive
    have some : 0 < digitCount (ratio.denominator / ratio.numerator) := Nat.length_toDigits_pos
    have fits : ratio.numerator * 10 ^ (digitCount (ratio.denominator / ratio.numerator) - 1)
        ≤ ratio.denominator :=
      (Nat.mul_le_mul_left _ digits).trans (Nat.mul_div_le _ _)
    rw [show (1 : Int) - Int.ofNat (digitCount (ratio.denominator / ratio.numerator))
        = -((digitCount (ratio.denominator / ratio.numerator) - 1 : Nat) : Int) by
          simp only [Int.ofNat_eq_natCast]; omega,
      zpow_neg, zpow_natCast, div_le_iff₀ above, ← div_eq_inv_mul, le_div_iff₀ (by positivity)]
    exact_mod_cast fits

section Search

variable {tie : Tie} {range : Interval} {exponent grid : Int}

/-- The point of a grid that is taken is one of the two around the number. -/
theorem onGrid_le {digits : Nat} (found : onGrid tie range exponent grid = some digits) :
    digits ≤ gridFloor range exponent grid + 1 := by
  have around : digits = gridFloor range exponent grid
      ∨ digits = gridFloor range exponent grid + 1 := by
    simp only [onGrid] at found
    split at found
    · cases found
    · exact .inl (Option.some.inj found).symm
    · exact .inr (Option.some.inj found).symm
    · cases tie <;> split_ifs at found <;> first
        | exact .inl (Option.some.inj found).symm
        | exact .inr (Option.some.inj found).symm
  omega

/-- A number below a power of ten has at most so many steps on a grid. -/
theorem gridFloor_le {places : Nat}
    (below : range.value * (2 : ℚ) ^ (exponent - 2) ≤ 10 ^ (grid + places)) :
    gridFloor range exponent grid ≤ 10 ^ places := by
  have step : (0 : ℚ) < 10 ^ grid := by positivity
  have floor := (gridFloor_spec range exponent grid).1.trans below
  rw [Scaled.value, zpow_add₀ (by norm_num), mul_comm (10 ^ grid), zpow_natCast,
    mul_le_mul_iff_of_pos_right step] at floor
  exact_mod_cast floor

/-- The search finds no more digits than the finest grid has steps up to the number. -/
theorem search_digits_le (places : Nat) {tries : Nat} {start : Int}
    (below : range.value * (2 : ℚ) ^ (exponent - 2) ≤ 10 ^ (start - tries + 1 + places)) :
    (search tie range exponent tries start).digits ≤ 10 ^ places + 1 := by
  induction tries generalizing start with
  | zero => exact Nat.zero_le _
  | succ tries ih =>
    rw [search]
    split
    · next digits found =>
      have coarse : range.value * (2 : ℚ) ^ (exponent - 2) ≤ 10 ^ (start + places) :=
        below.trans (zpow_le_zpow_right₀ (by norm_num) (by push_cast; omega))
      exact (onGrid_le found).trans (Nat.succ_le_succ (gridFloor_le coarse))
    · exact ih (by rwa [show start - 1 - (tries : Int) + 1 + places
        = start - (tries + 1 : Nat) + 1 + places by push_cast; ring])

end Search

/-- Moving zeros into the exponent leaves fewer digits. -/
theorem dropZeros_digits_le (tries : Nat) (scaled : Scaled) :
    (dropZeros tries scaled).digits ≤ scaled.digits := by
  induction tries generalizing scaled with
  | zero => exact Nat.le_refl _
  | succ tries ih =>
    rw [dropZeros]
    split
    · exact (ih _).trans (Nat.div_le_self _ _)
    · exact Nat.le_refl _

/-- Counted in quarters of its last place, a number is itself. -/
theorem interval_value (significand : Nat) (exponent : Int) :
    ((interval significand exponent).value : ℚ) * 2 ^ (exponent - 2)
      = significand * 2 ^ exponent := by
  rw [interval, zpow_sub₀ two_ne_zero]
  push_cast
  ring

/-- Seventeen digits are found, or the least number of eighteen. -/
theorem ofBinary_digits_le (tie : Tie) (significand : Nat) (exponent : Int) :
    (ofBinary tie significand exponent).digits ≤ 10 ^ 17 + 1 := by
  rw [ofBinary]
  split
  · exact Nat.zero_le _
  · next some =>
    obtain ⟨numerator, denominator, value⟩ := ratio_spec (Nat.pos_of_ne_zero some) exponent
    refine (dropZeros_digits_le _ _).trans (search_digits_le 17 ?_)
    rw [interval_value, ← value]
    refine (le_magnitude numerator denominator).trans (le_of_eq ?_)
    congr 1
    simp only [digitLimit]
    push_cast
    ring

/-- What is in an interval is between its ends. -/
theorem Interval.Contains.ends {range : Interval} {quarter point : ℚ}
    (inside : range.Contains quarter point) :
    range.low * quarter ≤ point ∧ point ≤ range.high * quarter := by
  unfold Interval.Contains at inside
  split at inside
  · exact inside
  · exact ⟨inside.1.le, inside.2.le⟩

/-- What is in the interval of a number differs from it by at most half of its last place. -/
theorem near_of_contains {significand : Nat} {exponent : Int} {point : ℚ}
    (inside : (interval significand exponent).Contains (2 ^ (exponent - 2)) point) :
    (significand - 1 / 2) * (2 : ℚ) ^ exponent ≤ point
      ∧ point ≤ (significand + 1 / 2) * 2 ^ exponent := by
  have quarter : (2 : ℚ) ^ exponent = 4 * 2 ^ (exponent - 2) := by
    rw [zpow_sub₀ two_ne_zero]
    ring
  have ends := inside.ends
  have low : (4 * significand - 2 : ℚ) ≤ (interval significand exponent).low := by
    have natural : 4 * significand ≤ (interval significand exponent).low + 2 := by
      rw [interval_low]
      split <;> omega
    rw [sub_le_iff_le_add]
    exact_mod_cast natural
  constructor
  · calc (significand - 1 / 2) * (2 : ℚ) ^ exponent
        = (4 * significand - 2) * 2 ^ (exponent - 2) := by rw [quarter]; ring
      _ ≤ (interval significand exponent).low * 2 ^ (exponent - 2) := by gcongr
      _ ≤ point := ends.1
  · refine ends.2.trans_eq ?_
    rw [quarter, interval]
    push_cast
    ring

/-- The shortest decimal of a number that is not 0 is not 0. -/
theorem ofBinary_positive (tie : Tie) {significand : Nat} {exponent : Int}
    (canonical : Canonical significand exponent) (positive : 0 < significand) :
    0 < (ofBinary tie significand exponent).digits := by
  have one : (1 : ℚ) ≤ significand := by exact_mod_cast positive
  have half : (0 : ℚ) < significand - 1 / 2 := by linarith
  have above := (near_of_contains (ofBinary_contains tie canonical)).1
  by_contra zero
  rw [Scaled.value, Nat.eq_zero_of_not_pos zero, Nat.cast_zero, zero_mul] at above
  exact absurd above (not_le.mpr (by positivity))

end Shortest

/-- The exponent of the leading digit. -/
def Scaled.leading (scaled : Scaled) : Int :=
  scaled.exponent + Int.ofNat (Shortest.digitCount scaled.digits) - 1

/-- The leading digit stands where the number is. -/
theorem Scaled.leading_spec {scaled : Scaled} (positive : 0 < scaled.digits) :
    (10 : ℚ) ^ scaled.leading ≤ scaled.value ∧ scaled.value < 10 ^ (scaled.leading + 1) := by
  have some : 0 < Shortest.digitCount scaled.digits := Nat.length_toDigits_pos
  have step : (0 : ℚ) < 10 ^ scaled.exponent := by positivity
  have first : scaled.leading
      = ((Shortest.digitCount scaled.digits - 1 : Nat) : Int) + scaled.exponent := by
    simp only [leading, Int.ofNat_eq_natCast]
    omega
  have next : scaled.leading + 1 = (Shortest.digitCount scaled.digits : Int) + scaled.exponent := by
    simp only [leading, Int.ofNat_eq_natCast]
    omega
  constructor
  · rw [first, value, zpow_add₀ (by norm_num), zpow_natCast]
    gcongr
    exact_mod_cast Shortest.pow_digitCount_le positive
  · rw [next, value, zpow_add₀ (by norm_num), zpow_natCast]
    gcongr
    exact_mod_cast Shortest.lt_pow_digitCount scaled.digits

namespace Shortest

/-- Half of the least binary place is above the power of ten that bounds it. -/
theorem pow_lt_least : (10 : ℚ) ^ (-324 : Int) < 1 / 2 * 2 ^ (-1074 : Int) := by
  have natural : 2 ^ 1075 < 10 ^ 324 := by decide +kernel
  have inverse : ((10 ^ 324 : Nat) : ℚ)⁻¹ < ((2 ^ 1075 : Nat) : ℚ)⁻¹ :=
    inv_strictAnti₀ (by positivity) (by exact_mod_cast natural)
  calc (10 : ℚ) ^ (-324 : Int) = ((10 ^ 324 : Nat) : ℚ)⁻¹ := by
        rw [zpow_neg, Nat.cast_pow]
        rfl
    _ < ((2 ^ 1075 : Nat) : ℚ)⁻¹ := inverse
    _ = 2 ^ (-1 + -1074 : Int) := by
        rw [Nat.cast_pow, show (-1 + -1074 : Int) = -(1075 : Nat) by norm_num, zpow_neg,
          zpow_natCast]
        rfl
    _ = 1 / 2 * 2 ^ (-1074 : Int) := by rw [zpow_add₀ two_ne_zero, zpow_neg_one, one_div]

/-- The first power of two that is out of range is below the power of ten that bounds it. -/
theorem greatest_lt_pow : (2 : ℚ) ^ 53 * 2 ^ (971 : Int) < 10 ^ (309 : Int) := by
  have natural : 2 ^ 53 * 2 ^ 971 < 10 ^ 309 := by decide +kernel
  exact_mod_cast natural

/-- The leading digit of a number of 64 bits. -/
theorem ofBinary_leading (tie : Tie) {significand : Nat} {exponent : Int}
    (canonical : Canonical significand exponent) (finite : exponent ≤ 971)
    (positive : 0 < significand) :
    -324 ≤ (ofBinary tie significand exponent).leading
      ∧ (ofBinary tie significand exponent).leading ≤ 308 := by
  obtain ⟨lowEnd, highEnd⟩ := near_of_contains (ofBinary_contains tie canonical)
  obtain ⟨atLeast, below⟩ := Scaled.leading_spec (ofBinary_positive tie canonical positive)
  have one : (1 : ℚ) ≤ significand := by exact_mod_cast positive
  have most : (significand : ℚ) + 1 / 2 ≤ 2 ^ 53 := by
    have canonicalBelow : (significand : ℚ) + 1 ≤ 2 ^ 53 := by exact_mod_cast canonical.below
    linarith
  constructor
  · have least : (2 : ℚ) ^ (-1074 : Int) ≤ 2 ^ exponent :=
      zpow_le_zpow_right₀ one_le_two canonical.least
    have half : (1 : ℚ) / 2 ≤ significand - 1 / 2 := by linarith
    have smaller :
        (10 : ℚ) ^ (-324 : Int) < 10 ^ ((ofBinary tie significand exponent).leading + 1) :=
      calc (10 : ℚ) ^ (-324 : Int) < 1 / 2 * 2 ^ (-1074 : Int) := pow_lt_least
        _ ≤ (significand - 1 / 2) * 2 ^ exponent := by gcongr
        _ ≤ _ := lowEnd
        _ < _ := below
    have := (zpow_lt_zpow_iff_right₀ (by norm_num)).mp smaller
    omega
  · have greatest : (2 : ℚ) ^ exponent ≤ 2 ^ (971 : Int) := zpow_le_zpow_right₀ one_le_two finite
    have larger : (10 : ℚ) ^ (ofBinary tie significand exponent).leading < 10 ^ (309 : Int) :=
      calc (10 : ℚ) ^ (ofBinary tie significand exponent).leading ≤ _ := atLeast
        _ ≤ (significand + 1 / 2) * 2 ^ exponent := highEnd
        _ ≤ 2 ^ 53 * 2 ^ (971 : Int) := by gcongr
        _ < 10 ^ (309 : Int) := greatest_lt_pow
    have := (zpow_lt_zpow_iff_right₀ (by norm_num)).mp larger
    omega

end Shortest

/-- What the fields of a number say if it is finite: its exponent is in range. -/
theorem Binary64.exponent_le {number : Float} {negative : Bool} {significand : Nat}
    {exponent : Int} (fields : ofFloat number = .finite negative significand exponent) :
    exponent ≤ 971 := by
  simp only [ofFloat, ofBits] at fields
  split_ifs at fields with special <;> cases fields
  · decide
  · have field := Nat.mod_lt (number.toBits.toNat / leadingBit) (show 0 < 2048 by decide)
    simp only [Int.ofNat_eq_natCast]
    omega

/-- The fields of a finite number are those of some number, in range. -/
theorem Binary64.canonical_of_fields {number : Float} {negative : Bool} {significand : Nat}
    {exponent : Int} (fields : ofFloat number = .finite negative significand exponent) :
    Decimal.Canonical significand exponent ∧ exponent ≤ 971 := by
  have canonical := canonical_ofFloat number
  rw [fields] at canonical
  exact ⟨canonical, exponent_le fields⟩

end Nonlocal.Decimal
