import Nonlocal.Proofs.Decimal.Arithmetic
import Nonlocal.Proofs.Record.Gathered

/-!
# What a probability is read back as

The digits of a number's decimal are turned into a number and multiplied or divided by a
power of ten. Each of these steps rounds, so the number that is read back need not be the
one that was written. It is if the digits and the power of ten are numbers themselves: then
only the last step rounds, and the decimal lies in the interval of one number only. A number
that is in range is never read back as one that is not.
-/

namespace Nonlocal.Record

open Decimal

/-- The decimal that is gathered where a number has been written. -/
def gathered (significand : Nat) (exponent : Int) : Scaled :=
  writtenOut (Shortest.ofBinary .toEven significand exponent)

/-- What a finite number is read back as. -/
def reread (number : Float) : Float :=
  match Binary64.ofFloat number with
  | .finite isNegative significand exponent =>
    let decimal := gathered significand exponent
    let magnitude := (scale? (Float.ofNat decimal.digits) decimal.exponent).getD 0
    if isNegative then -magnitude else magnitude
  | _ => number

/-- The zero after the point does not change a number. -/
theorem writtenOut_value (scaled : Scaled) : (writtenOut scaled).value = scaled.value := by
  rw [writtenOut]
  split
  · split
    · next whole =>
      obtain ⟨power, zeros⟩ := Int.eq_ofNat_of_zero_le whole
      simp only [Scaled.value, zeros, Int.toNat_natCast, zpow_neg_one, zpow_natCast]
      push_cast
      field_simp
      ring
    · rfl
  · rfl

section Bounds

variable {significand : Nat} {exponent : Int}

/-- A decimal of a number counts in units only if it is 0. -/
theorem ofBinary_plain (canonical : Canonical significand exponent) :
    (Shortest.ofBinary .toEven significand exponent).Plain := by
  intro zero
  obtain rfl | positive := Nat.eq_zero_or_pos significand
  · rfl
  · exact absurd zero (Shortest.ofBinary_positive .toEven canonical positive).ne'

/-- The digits that are gathered fit a word. -/
theorem gathered_digits_lt (significand : Nat) (exponent : Int) :
    (gathered significand exponent).digits < Word.limit := by
  have few := Shortest.ofBinary_digits_le .toEven significand exponent
  have limit : Word.limit = 2 ^ 64 := rfl
  rw [gathered, writtenOut, limit]
  split
  · next positional =>
    split
    · next whole =>
      -- What is written without an exponent has at most 17 digits, the zero included.
      set scaled := Shortest.ofBinary .toEven significand exponent
      simp only [Scaled.isPositional, Scaled.leading, Bool.or_eq_true, Bool.and_eq_true,
        decide_eq_true_eq, Int.ofNat_eq_natCast] at positional
      obtain zero | ⟨-, short⟩ := positional
      · simp [zero]
      · have below := of_decide_eq_true short
        calc scaled.digits * 10 ^ (scaled.exponent.toNat + 1)
            < 10 ^ Shortest.digitCount scaled.digits * 10 ^ (scaled.exponent.toNat + 1) :=
              Nat.mul_lt_mul_of_pos_right (Shortest.lt_pow_digitCount _) (by positivity)
          _ = 10 ^ (Shortest.digitCount scaled.digits + (scaled.exponent.toNat + 1)) :=
              (pow_add _ _ _).symm
          _ ≤ 10 ^ 17 := Nat.pow_le_pow_right (by decide) (by omega)
          _ < 2 ^ 64 := by decide
    · omega
  · omega

/-- The leading digit stands at a moderate place. -/
theorem leading_moderate (canonical : Canonical significand exponent) (finite : exponent ≤ 971) :
    (Shortest.ofBinary .toEven significand exponent).leading.natAbs ≤ exponentLimit := by
  have limit : exponentLimit = 2147483647 := rfl
  obtain rfl | positive := Nat.eq_zero_or_pos significand
  · change (Scaled.leading ⟨0, 0⟩).natAbs ≤ exponentLimit
    decide
  · have := Shortest.ofBinary_leading .toEven canonical finite positive
    omega

end Bounds

section Scaling

/-- A division never leaves the range. -/
theorem scale?_of_neg {value : Float} {exponent : Int} (negative : exponent < 0) :
    ∃ scaled, scale? value exponent = some scaled := by
  induction size : exponent.natAbs using Nat.strongRecOn generalizing value exponent with
  | ind size ih =>
    rw [scale?]
    have limit : powerLimit = 308 := rfl
    split
    · rw [if_neg (by omega)]
      exact ⟨_, rfl⟩
    · split
      · exact ⟨_, rfl⟩
      · rw [if_neg (by omega)]
        exact ih _ (by omega) (by omega) rfl

/-- The last two numbers in range. -/
theorem greatest_finite :
    (gathered (2 ^ 53 - 1) 971 = ⟨17976931348623157, 292⟩
      ∧ gathered (2 ^ 53 - 2) 971 = ⟨17976931348623155, 292⟩)
    ∧ (Float.ofNat 17976931348623157 * powerOfTen 292).isInf = false
    ∧ (Float.ofNat 17976931348623155 * powerOfTen 292).isInf = false := by
  decide +kernel

/-- A product that is finite is not refused. -/
theorem scale?_of_finite {value : Float} {exponent : Int} (nonnegative : 0 ≤ exponent)
    (moderate : exponent ≤ 308) (finite : (value * powerOfTen exponent.natAbs).isInf = false) :
    scale? value exponent = some (value * powerOfTen exponent.natAbs) := by
  have limit : powerLimit = 308 := rfl
  rw [scale?, if_pos (by omega), if_pos nonnegative]
  simp only [finite, Bool.false_eq_true, if_false]

/-- A number is divided in one step if the power of ten is in range. -/
theorem scale?_divided {value : Float} {exponent : Int} (negative : exponent < 0)
    (moderate : exponent.natAbs ≤ 308) :
    scale? value exponent = some (value / powerOfTen exponent.natAbs) := by
  have limit : powerLimit = 308 := rfl
  rw [scale?, if_pos (by omega), if_neg (not_le.mpr negative)]

/-- A power of ten is rounded to a number. -/
theorem rounds_powerOfTen {power : Nat} (moderate : power ≤ 308) :
    Rounds (10 ^ power) (powerOfTen power) := by
  have rounds := rounds_ofScientific 1 (show power ≤ 2048 by omega)
  rw [Nat.cast_one, one_mul] at rounds
  exact rounds

/-- Only a number that is not 0 is multiplied, and its digits are those of its decimal. -/
theorem gathered_of_nonneg {significand : Nat} {exponent : Int}
    (nonnegative : 0 ≤ (gathered significand exponent).exponent) :
    gathered significand exponent = Shortest.ofBinary .toEven significand exponent
      ∧ 0 < (Shortest.ofBinary .toEven significand exponent).digits := by
  rw [gathered, writtenOut] at nonnegative ⊢
  split at nonnegative
  · split at nonnegative
    · exact absurd nonnegative (show ¬(0 : Int) ≤ -1 by decide)
    · next fraction => exact absurd nonnegative fraction
  · next scientific =>
    rw [if_neg scientific]
    refine ⟨rfl, Nat.pos_of_ne_zero fun zero => scientific ?_⟩
    simp [Scaled.isPositional, zero]

/-- But for the last two numbers in range, what rounds to a number leaves room for more
rounding. -/
theorem high_le {significand : Nat} {exponent : Int} (canonical : Canonical significand exponent)
    (inRange : exponent ≤ 971) (notLast : ¬(exponent = 971 ∧ 2 ^ 53 - 2 ≤ significand)) :
    (significand + 1 / 2) * (2 : ℚ) ^ exponent ≤ (2 ^ 53 - 5 / 2) * 2 ^ (971 : Int) := by
  have below : significand < 2 ^ 53 := canonical.below
  by_cases last : exponent = 971
  · have most : (significand : ℚ) + 3 ≤ 2 ^ 53 := by
      have : significand + 3 ≤ 2 ^ 53 := by omega
      exact_mod_cast this
    rw [last]
    gcongr
    linarith
  · have most : (significand : ℚ) + 1 ≤ 2 ^ 53 := by exact_mod_cast below
    calc (significand + 1 / 2) * (2 : ℚ) ^ exponent ≤ 2 ^ 53 * 2 ^ (970 : Int) := by
          gcongr
          · linarith
          · exact one_le_two
          · omega
      _ ≤ (2 ^ 53 - 5 / 2) * 2 ^ (970 + 1 : Int) := by
          rw [zpow_add_one₀ two_ne_zero, mul_left_comm, mul_comm (2 ^ 53)]
          gcongr
          norm_num

/-- A number is never scaled out of range. -/
theorem scale?_gathered {significand : Nat} {exponent : Int}
    (canonical : Canonical significand exponent) (inRange : exponent ≤ 971) :
    ∃ magnitude, scale? (Float.ofNat (gathered significand exponent).digits)
      (gathered significand exponent).exponent = some magnitude := by
  by_cases nonnegative : 0 ≤ (gathered significand exponent).exponent
  · obtain ⟨same, some⟩ := gathered_of_nonneg nonnegative
    have positive : 0 < significand := by
      refine Nat.pos_of_ne_zero ?_
      rintro rfl
      exact absurd some (lt_irrefl 0)
    by_cases last : exponent = 971 ∧ 2 ^ 53 - 2 ≤ significand
    · obtain ⟨rfl, reaches⟩ := last
      obtain ⟨⟨greatest, next⟩, finite, finite'⟩ := greatest_finite
      have below : significand < 2 ^ 53 := canonical.below
      obtain rfl | rfl : significand = 2 ^ 53 - 1 ∨ significand = 2 ^ 53 - 2 := by omega
      · rw [greatest]
        exact ⟨_, scale?_of_finite (by decide) (by decide) finite⟩
      · rw [next]
        exact ⟨_, scale?_of_finite (by decide) (by decide) finite'⟩
    · rw [same] at nonnegative ⊢
      set scaled := Shortest.ofBinary .toEven significand exponent with scaledEq
      have moderate : scaled.exponent ≤ 308 := by
        have leading := (Shortest.ofBinary_leading .toEven canonical inRange positive).2
        have digits : 0 < Shortest.digitCount scaled.digits := Nat.length_toDigits_pos
        simp only [Scaled.leading, ← scaledEq, Int.ofNat_eq_natCast] at leading
        omega
      have value : (scaled.digits : ℚ) * 10 ^ scaled.exponent.natAbs
          ≤ (2 ^ 53 - 5 / 2) * 2 ^ (971 : Int) := by
        have near := (Shortest.near_of_contains (Shortest.ofBinary_contains .toEven canonical)).2
        rw [← scaledEq, Scaled.value, ← Int.natAbs_of_nonneg nonnegative, zpow_natCast] at near
        exact near.trans (high_le canonical inRange last)
      have one : (1 : ℚ) ≤ scaled.digits := by exact_mod_cast some
      obtain ⟨_, _, fields⟩ := (rounds_ofNat scaled.digits).mul_finite
        (rounds_powerOfTen (show scaled.exponent.natAbs ≤ 308 by omega)) one
        (one_le_pow₀ (by norm_num)) value
      exact ⟨_, scale?_of_finite nonnegative moderate (isInf_of_fields fields)⟩
  · exact scale?_of_neg (not_le.mp nonnegative)

end Scaling

section Reading

variable {number : Float} {isNegative : Bool} {significand : Nat} {exponent : Int}

/-- A number is read back as its decimal, scaled. -/
theorem reread_eq {magnitude : Float}
    (fields : Binary64.ofFloat number = .finite isNegative significand exponent)
    (scaled : scale? (Float.ofNat (gathered significand exponent).digits)
      (gathered significand exponent).exponent = some magnitude) :
    reread number = if isNegative then -magnitude else magnitude := by
  rw [reread, fields]
  simp only [scaled, Option.getD_some]

/-- A finite number that has been written is read. -/
theorem readProbability_append {rest : List Char}
    (fields : Binary64.ofFloat number = .finite isNegative significand exponent)
    (delimited : Delimited rest) :
    Gives (readProbability ((Layout.record.text number).toList ++ rest)) (reread number) rest := by
  obtain ⟨canonical, inRange⟩ := Binary64.canonical_of_fields fields
  obtain ⟨magnitude, scaled⟩ := scale?_gathered canonical inRange
  have value : (decimalNumeral isNegative
      (Shortest.ofBinary .toEven significand exponent)).number?
        = some (.floating (reread number)) := by
    rw [number?_decimalNumeral isNegative (gathered_digits_lt significand exponent)
      (leading_moderate canonical inRange), reread_eq fields scaled]
    rw [gathered] at scaled
    rw [scaled]
    rfl
  rw [toList_record_text fields]
  obtain ⟨shorter, read⟩ := readAnyNumber_append .number
    (decimalNumeral_wellFormed isNegative (ofBinary_plain canonical)) value delimited
  exact ⟨shorter, by simp only [readProbability, read]; rfl⟩

/-- Whether the decimal of a finite number has few digits and a small power of ten. -/
def isShort (number : Float) : Bool :=
  match Binary64.ofFloat number with
  | .finite _ significand exponent =>
    let decimal := gathered significand exponent
    decimal.digits < 2 ^ 53 && decimal.exponent.natAbs ≤ 22
  | _ => false

/-- The decimal of a short number is scaled to this number: its digits and the power of ten are
numbers, so there is one rounding. -/
theorem scale?_of_short {decimal : Scaled} (canonical : Canonical significand exponent)
    (inRange : exponent ≤ 971)
    (inside : (Shortest.interval significand exponent).Contains (2 ^ (exponent - 2)) decimal.value)
    (few : decimal.digits < 2 ^ 53) (small : decimal.exponent.natAbs ≤ 22) :
    ∃ magnitude, scale? (Float.ofNat decimal.digits) decimal.exponent = some magnitude
      ∧ Binary64.ofFloat magnitude = .finite false significand exponent := by
  obtain ⟨digits, places, canonicalDigits, digitsInRange, digitsValue⟩ := exists_canonical few
  obtain ⟨power, places', canonicalPower, powerInRange, powerValue, -⟩ :=
    tabulated_power (show decimal.exponent.natAbs < 23 by omega)
  have digitsFields :=
    (digitsValue ▸ rounds_ofNat decimal.digits).exact canonicalDigits digitsInRange
  have powerFields := (powerValue ▸ rounds_powerOfTen
    (show decimal.exponent.natAbs ≤ 308 by omega)).exact canonicalPower powerInRange
  by_cases nonnegative : 0 ≤ decimal.exponent
  · have product : decimal.value = digits * 2 ^ places * (power * 2 ^ places') := by
      rw [digitsValue, powerValue, Scaled.value, ← zpow_natCast, Int.natAbs_of_nonneg nonnegative]
    have fields := (rounds_mul canonicalDigits canonicalPower digitsFields
      powerFields).eq_of_contains canonical inRange (product ▸ inside)
    exact ⟨_, scale?_of_finite nonnegative (by omega) (isInf_of_fields fields), fields⟩
  · have positive : 0 < power := significand_pos (by rw [powerValue]; positivity)
    have quotient : decimal.value = digits * 2 ^ places / (power * 2 ^ places') := by
      rw [digitsValue, powerValue, Scaled.value, ← zpow_natCast, div_eq_mul_inv, ← zpow_neg]
      congr 2
      omega
    have fields := (rounds_div positive digitsFields powerFields).eq_of_contains
      canonical inRange (quotient ▸ inside)
    exact ⟨_, scale?_divided (not_le.mp nonnegative) (by omega), fields⟩

/-- A short number is read back as itself. -/
theorem reread_of_short (short : isShort number) : reread number = number := by
  cases fields : Binary64.ofFloat number with
  | notANumber => simp [isShort, fields] at short
  | infinite isNegative => simp [isShort, fields] at short
  | finite isNegative significand exponent =>
    obtain ⟨few, small⟩ : (gathered significand exponent).digits < 2 ^ 53
        ∧ (gathered significand exponent).exponent.natAbs ≤ 22 := by
      simpa [isShort, fields] using short
    obtain ⟨canonical, inRange⟩ := Binary64.canonical_of_fields fields
    have inside := Shortest.ofBinary_contains .toEven canonical
    rw [← writtenOut_value] at inside
    obtain ⟨magnitude, scaled, magnitudeFields⟩ :=
      scale?_of_short canonical inRange inside few small
    apply Binary64.ofFloat_injective
    rw [reread_eq fields scaled, fields]
    cases isNegative with
    | true => exact ofFloat_neg magnitudeFields
    | false => exact magnitudeFields

end Reading

end Nonlocal.Record
