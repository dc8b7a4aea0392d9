import Nonlocal.Proofs.Decimal.Nearest

/-!
# Every operation rounds once

A product, a quotient and a conversion of numbers without a sign are the exact result,
rounded once. The exact result lies in the interval of the number that is given, and a
result in the interval of a number that is in range is this number. The operations keep
enough digits for that: those of a product are all kept, a quotient is computed to the
place where it is rounded and the rest is told by the remainder.
-/

namespace Nonlocal.Decimal

open Float.Model Float.Model.UnpackedFloat

/-- A number is a point rounded: the point lies in its interval, or in the one of a number that
is out of range if the number is infinite. -/
def Rounds (point : ℚ) (number : Float) : Prop :=
  ∃ significand exponent, Canonical significand exponent
    ∧ (Shortest.interval significand exponent).Contains (2 ^ (exponent - 2)) point
    ∧ Binary64.ofFloat number
      = if exponent ≤ 971 then .finite false significand exponent else .infinite false

/-- The last exponent has the number 0. -/
theorem canonical_zero : Canonical 0 (-1074) where
  below := by decide
  least := le_rfl
  leading := fun above => absurd above (lt_irrefl _)

/-- A number lies in its own interval. -/
theorem contains_self (significand : Nat) (exponent : Int) :
    (Shortest.interval significand exponent).Contains (2 ^ (exponent - 2))
      (significand * 2 ^ exponent) :=
  contains_of_rounded (Nat.cast_nonneg _) ⟨by linarith, by linarith⟩
    (fun _ => ⟨by linarith, by linarith⟩) fun _ => by linarith

namespace Rounds

variable {point : ℚ} {number : Float} {significand : Nat} {exponent : Int}

/-- A result that is packed is the point it was rounded from. -/
theorem of_datum (canonical : Canonical significand exponent)
    (inside : (Shortest.interval significand exponent).Contains (2 ^ (exponent - 2)) point) :
    Rounds point (.ofModel (pack (datum false significand exponent))) :=
  ⟨significand, exponent, canonical, inside, ofFloat_pack false canonical⟩

/-- Rounding a mantissa with an exponent. -/
theorem of_round {count : Nat} {accuracy : Accuracy}
    (tells : Tells (.ofMantissaAndAccuracy count accuracy) point)
    (fine : exponent ≤ Format.binary64.targetExponent (totalExponent count exponent)) :
    Rounds (point * 2 ^ exponent)
      (.ofModel (pack (roundWithAccuracy .binary64 .positive count exponent accuracy))) := by
  obtain ⟨significand, exponent', canonical, inside, result⟩ := roundWithAccuracy_spec tells fine
  rw [result]
  exact of_datum canonical inside

/-- A point in the interval of a number is rounded to this number. -/
theorem eq_of_contains (rounds : Rounds point number) (canonical : Canonical significand exponent)
    (inRange : exponent ≤ 971)
    (inside : (Shortest.interval significand exponent).Contains (2 ^ (exponent - 2)) point) :
    Binary64.ofFloat number = .finite false significand exponent := by
  obtain ⟨significand', exponent', canonical', inside', fields⟩ := rounds
  obtain ⟨rfl, rfl⟩ := Shortest.fields_unique canonical canonical' inside inside'
  rw [fields, if_pos inRange]

/-- A number is rounded to itself. -/
theorem exact (rounds : Rounds (significand * 2 ^ exponent) number)
    (canonical : Canonical significand exponent) (inRange : exponent ≤ 971) :
    Binary64.ofFloat number = .finite false significand exponent :=
  rounds.eq_of_contains canonical inRange (contains_self significand exponent)

/-- Zero is zero. -/
theorem zero : Rounds 0 (.ofModel (pack (.zero .positive))) := by
  have inside := contains_self 0 (-1074)
  rw [Nat.cast_zero, zero_mul] at inside
  exact of_datum canonical_zero inside

end Rounds

/-- An exact mantissa tells itself. -/
theorem tells_exact (count : Nat) : Tells (.ofMantissaAndAccuracy count .exact) count := rfl

section Operations

variable {first second : Float} {significand significand' : Nat} {exponent exponent' : Int}

/-- Canonical fields leave no digit of a product behind. -/
theorem mul_fine (canonical : Canonical significand exponent)
    (canonical' : Canonical significand' exponent') (positive : 0 < significand)
    (positive' : 0 < significand') :
    exponent + exponent' ≤ Format.binary64.targetExponent
      (totalExponent (significand * significand') (exponent + exponent')) := by
  rw [targetExponent_eq]
  have product : 0 < significand * significand' := Nat.mul_pos positive positive'
  by_cases least : exponent = -1074 ∧ exponent' = -1074
  · omega
  · have large : 2 ^ 52 ≤ significand * significand' := by
      have bit : Binary64.leadingBit = 2 ^ 52 := rfl
      by_cases first : exponent = -1074
      · have := canonical'.leading (by have := canonical'.least; omega)
        exact (bit ▸ this).trans (Nat.le_mul_of_pos_left _ positive)
      · have := canonical.leading (by have := canonical.least; omega)
        exact (bit ▸ this).trans (Nat.le_mul_of_pos_right _ positive')
    have := (Nat.le_log2 product.ne').mpr large
    omega

/-- A product is rounded once. -/
theorem rounds_mul (canonical : Canonical significand exponent)
    (canonical' : Canonical significand' exponent')
    (fields : Binary64.ofFloat first = .finite false significand exponent)
    (fields' : Binary64.ofFloat second = .finite false significand' exponent') :
    Rounds (significand * 2 ^ exponent * (significand' * 2 ^ exponent')) (first * second) := by
  change Rounds _ (.ofModel (pack (UnpackedFloat.mul .binary64 first.toModel.unpack
    second.toModel.unpack)))
  rw [unpack_of_fields fields, unpack_of_fields fields']
  obtain rfl | positive := Nat.eq_zero_or_pos significand
  · rw [Nat.cast_zero, zero_mul, zero_mul]
    obtain rfl | positive' := Nat.eq_zero_or_pos significand'
    · exact Rounds.zero
    · rw [← finite_eq_datum false exponent' positive']
      exact Rounds.zero
  · obtain rfl | positive' := Nat.eq_zero_or_pos significand'
    · rw [Nat.cast_zero, zero_mul, mul_zero, ← finite_eq_datum false exponent positive]
      exact Rounds.zero
    · rw [← finite_eq_datum false exponent positive, ← finite_eq_datum false exponent' positive']
      have rounds := Rounds.of_round (tells_exact (significand * significand'))
        (mul_fine canonical canonical' positive positive')
      rw [Nat.cast_mul, zpow_add₀ two_ne_zero, mul_mul_mul_comm] at rounds
      exact rounds

/-- A quotient with its remainder is told by the comparison of the remainder with half of the
divisor. -/
theorem tells_fraction (dividend : Nat) {divisor : Nat} (positive : 0 < divisor) :
    Tells (.ofMantissaAndAccuracy (dividend / divisor)
      (accuracyOfFraction (dividend % divisor) divisor)) (dividend / divisor : ℚ) := by
  have above : (0 : ℚ) < divisor := by exact_mod_cast positive
  have whole : (dividend : ℚ)
      = divisor * (dividend / divisor : Nat) + (dividend % divisor : Nat) := by
    exact_mod_cast (Nat.div_add_mod dividend divisor).symm
  have parts : (dividend : ℚ) / divisor
      = (dividend / divisor : Nat) + (dividend % divisor : Nat) / divisor := by
    rw [div_eq_iff above.ne', add_mul, div_mul_cancel₀ _ above.ne', mul_comm (Nat.cast _)]
    exact whole
  have less : ((dividend % divisor : Nat) : ℚ) / divisor < 1 := by
    rw [div_lt_one above]
    exact_mod_cast Nat.mod_lt dividend positive
  rw [parts, accuracyOfFraction]
  split
  · next none =>
    rw [none, Nat.cast_zero, zero_div, add_zero]
    exact tells_exact _
  · next some =>
    have rest : (0 : ℚ) < (dividend % divisor : Nat) / divisor := by
      have : (0 : ℚ) < (dividend % divisor : Nat) := by exact_mod_cast Nat.pos_of_ne_zero some
      positivity
    cases order : compare (2 * (dividend % divisor)) divisor with
    | lt =>
      have half : ((dividend % divisor : Nat) : ℚ) / divisor < 1 / 2 := by
        rw [div_lt_iff₀ above, one_div, lt_inv_mul_iff₀ two_pos]
        exact_mod_cast Nat.compare_eq_lt.mp order
      exact ⟨lt_add_of_pos_right _ rest, (add_lt_add_iff_left _).mpr half⟩
    | eq =>
      have half : ((dividend % divisor : Nat) : ℚ) / divisor = 1 / 2 := by
        rw [div_eq_iff above.ne', one_div, eq_inv_mul_iff_mul_eq₀ two_ne_zero]
        exact_mod_cast Nat.compare_eq_eq.mp order
      rw [half]
      rfl
    | gt =>
      have half : 1 / 2 < ((dividend % divisor : Nat) : ℚ) / divisor := by
        rw [lt_div_iff₀ above, one_div, inv_mul_lt_iff₀ two_pos]
        exact_mod_cast Nat.compare_eq_gt.mp order
      exact ⟨(add_lt_add_iff_left _).mpr half, (add_lt_add_iff_left _).mpr less⟩

/-- A shift adds its places to the binary digits of a count. -/
theorem pow_le_shiftLeft {count : Nat} (positive : 0 < count) (places : Nat) :
    2 ^ (count.log2 + places) ≤ count <<< places := by
  rw [Nat.shiftLeft_eq, pow_add]
  exact Nat.mul_le_mul_right _ (Nat.log2_self_le positive.ne')

/-- A quotient of the shifted dividend has all its digits. -/
theorem div_fine (significand : Nat) (exponent exponent' : Int) (positive : 0 < significand)
    (positive' : 0 < significand') :
    let target := min (exponent - exponent') (Format.binary64.targetExponent
      (totalExponent significand exponent - totalExponent significand' exponent'))
    target ≤ Format.binary64.targetExponent (totalExponent
      ((significand <<< (exponent - exponent' - target).toNat) / significand') target) := by
  intro target
  have targetEq : target = min (exponent - exponent') (max ((significand.log2 + exponent : Int)
      - (significand'.log2 + exponent') - 53) (-1074)) := by
    simp only [target, targetExponent_total, totalExponent]
    omega
  rw [targetExponent_eq]
  by_cases small : target ≤ -1074
  · omega
  · set places := (exponent - exponent' - target).toNat with placesEq
    have divisor : significand' ≤ 2 ^ (significand'.log2 + 1) := Nat.lt_log2_self.le
    have enough : 2 ^ 52 * significand' ≤ significand <<< places :=
      calc 2 ^ 52 * significand' ≤ 2 ^ 52 * 2 ^ (significand'.log2 + 1) :=
            Nat.mul_le_mul_left _ divisor
        _ = 2 ^ (52 + (significand'.log2 + 1)) := (pow_add _ _ _).symm
        _ ≤ 2 ^ (significand.log2 + places) := Nat.pow_le_pow_right two_pos (by omega)
        _ ≤ significand <<< places := pow_le_shiftLeft positive places
    have large : 2 ^ 52 ≤ (significand <<< places) / significand' :=
      (Nat.le_div_iff_mul_le positive').mpr enough
    have := (Nat.le_log2 (Nat.ne_of_gt (Nat.lt_of_lt_of_le (by decide) large))).mpr large
    omega

/-- A quotient of the shifted dividend, counted in units of the place to which it is shifted. -/
theorem div_value (significand significand' : Nat) {exponent exponent' target : Int}
    (reaches : target ≤ exponent - exponent') :
    ((significand <<< (exponent - exponent' - target).toNat : Nat) : ℚ) / significand' * 2 ^ target
      = significand * 2 ^ exponent / (significand' * 2 ^ exponent') := by
  have shift : (2 : ℚ) ^ (exponent - exponent' - target).toNat * 2 ^ target
      = 2 ^ exponent / 2 ^ exponent' := by
    rw [← zpow_natCast, ← zpow_add₀ two_ne_zero, ← zpow_sub₀ two_ne_zero]
    congr 1
    omega
  rw [Nat.shiftLeft_eq, Nat.cast_mul, Nat.cast_pow, Nat.cast_two, mul_div_right_comm, mul_assoc,
    shift, div_mul_div_comm]

/-- A quotient is rounded once. -/
theorem rounds_div (positive : 0 < significand')
    (fields : Binary64.ofFloat first = .finite false significand exponent)
    (fields' : Binary64.ofFloat second = .finite false significand' exponent') :
    Rounds (significand * 2 ^ exponent / (significand' * 2 ^ exponent')) (first / second) := by
  change Rounds _ (.ofModel (pack (UnpackedFloat.div .binary64 first.toModel.unpack
    second.toModel.unpack)))
  rw [unpack_of_fields fields, unpack_of_fields fields', ← finite_eq_datum false exponent' positive]
  obtain rfl | positive' := Nat.eq_zero_or_pos significand
  · rw [Nat.cast_zero, zero_mul, zero_div]
    exact Rounds.zero
  · rw [← finite_eq_datum false exponent positive']
    have rounds := Rounds.of_round (tells_fraction _ positive)
      (div_fine significand exponent exponent' positive' positive)
    rw [div_value significand significand' (min_le_left _ _)] at rounds
    exact rounds

end Operations

section Conversions

/-- A number above 0 has a significand above 0. -/
theorem significand_pos {significand : Nat} {exponent : Int}
    (positive : (0 : ℚ) < significand * 2 ^ exponent) : 0 < significand := by
  have unit : (0 : ℚ) < 2 ^ exponent := by positivity
  exact_mod_cast (mul_pos_iff_of_pos_right unit).mp positive

/-- A count of at most 53 binary digits is a number. -/
theorem exists_canonical {count : Nat} (small : count < 2 ^ 53) :
    ∃ significand exponent, Canonical significand exponent ∧ exponent ≤ 971
      ∧ (significand : ℚ) * 2 ^ exponent = count := by
  obtain rfl | positive := Nat.eq_zero_or_pos count
  · exact ⟨0, -1074, canonical_zero, by decide, by simp⟩
  · have log : count.log2 < 53 := (Nat.log2_lt positive.ne').mpr small
    obtain ⟨places, full⟩ : ∃ places, count.log2 + places = 52 := ⟨52 - count.log2, by omega⟩
    have bit : Binary64.leadingBit = 2 ^ 52 := rfl
    refine ⟨count * 2 ^ places, -places, ⟨?_, by omega, fun _ => ?_⟩, by omega, ?_⟩
    · calc count * 2 ^ places < 2 ^ (count.log2 + 1) * 2 ^ places :=
            Nat.mul_lt_mul_of_pos_right Nat.lt_log2_self (by positivity)
        _ = 2 * Binary64.leadingBit := by
            rw [← pow_add, bit, ← full]
            ring
    · calc Binary64.leadingBit = 2 ^ count.log2 * 2 ^ places := by rw [bit, ← pow_add, full]
        _ ≤ count * 2 ^ places := Nat.mul_le_mul_right _ (Nat.log2_self_le positive.ne')
    · push_cast
      rw [mul_assoc, zpow_neg, zpow_natCast, mul_inv_cancel₀ (by positivity), mul_one]

/-- A word is rounded to a number. -/
theorem rounds_toFloat {count : Nat} (word : count < 2 ^ 64) :
    Rounds count count.toUInt64.toFloat := by
  have same : count.toUInt64.toNat = count := UInt64.toNat_ofNat_of_lt' word
  change Rounds _ (.ofModel (pack
    (UnpackedFloat.normalize .binary64 (count.toUInt64.toNat : Int) 0 .positive)))
  rw [same, UnpackedFloat.normalize]
  obtain rfl | positive := Nat.eq_zero_or_pos count
  · rw [Nat.cast_zero]
    exact Rounds.zero
  · have order : compare (count : Int) 0 = .gt := Int.compare_eq_gt.mpr (by omega)
    simp only [order, Int.toNat_natCast]
    rw [UnpackedFloat.round, targetExponent_eq]
    simp only [decreaseExponent]
    set places := (0 - max ((count.log2 : Int) + 0 - 52) (-1074)).toNat with placesEq
    have shifted : count.log2 + places ≤ (count <<< places).log2 := by
      have reaches := pow_le_shiftLeft positive places
      have some : 0 < count <<< places := (Nat.two_pow_pos _).trans_le reaches
      exact (Nat.le_log2 some.ne').mpr reaches
    have fine : 0 - (places : Int) ≤ Format.binary64.targetExponent
        (totalExponent (count <<< places) (0 - places)) := by
      rw [targetExponent_eq]
      omega
    have rounds := Rounds.of_round (tells_exact (count <<< places)) fine
    have value : ((count <<< places : Nat) : ℚ) * 2 ^ (0 - (places : Int)) = count := by
      rw [Nat.shiftLeft_eq, Nat.cast_mul, Nat.cast_pow, Nat.cast_two, zero_sub, zpow_neg,
        zpow_natCast, mul_assoc, mul_inv_cancel₀ (by positivity), mul_one]
    rw [value] at rounds
    exact rounds

/-- A count of at most 53 binary digits is converted to the number that it is. -/
theorem exists_fields_toFloat {count : Nat} (small : count < 2 ^ 53) :
    ∃ significand exponent, Canonical significand exponent
      ∧ (significand : ℚ) * 2 ^ exponent = count
      ∧ Binary64.ofFloat count.toUInt64.toFloat = .finite false significand exponent := by
  obtain ⟨significand, exponent, canonical, inRange, value⟩ := exists_canonical small
  have rounds : Rounds (significand * 2 ^ exponent) count.toUInt64.toFloat := by
    rw [value]
    exact rounds_toFloat (by omega)
  exact ⟨significand, exponent, canonical, value, rounds.exact canonical inRange⟩

/-- The fields of the tabulated powers of ten; no digit is lost. -/
theorem tabulated_fields : ∀ power (listed : power < 23),
    Binary64.ofFloat Float.exactlyRepresentablePowersOfTen[power]
      = .finite false (10 ^ power * 2 ^ 52 / 2 ^ (10 ^ power).log2) ((10 ^ power).log2 - 52)
    ∧ 2 ^ (10 ^ power).log2 ∣ 10 ^ power * 2 ^ 52 := by
  decide +kernel

/-- The powers of ten up to the twenty-second are numbers. -/
theorem tabulated_power {power : Nat} (listed : power < 23) :
    ∃ significand exponent, Canonical significand exponent ∧ exponent ≤ 971
      ∧ (significand : ℚ) * 2 ^ exponent = 10 ^ power
      ∧ Binary64.ofFloat Float.exactlyRepresentablePowersOfTen[power]
        = .finite false significand exponent := by
  obtain ⟨fields, quotient, product⟩ := tabulated_fields power listed
  have product' : (2 : ℚ) ^ (10 ^ power).log2 * quotient = 10 ^ power * 2 ^ 52 := by
    exact_mod_cast product.symm
  rw [product, Nat.mul_div_cancel_left _ (Nat.two_pow_pos _)] at fields
  obtain ⟨canonical, inRange⟩ := Binary64.canonical_of_fields fields
  refine ⟨quotient, ((10 ^ power : Nat).log2 : Int) - 52, canonical, inRange, ?_, fields⟩
  rw [zpow_sub₀ two_ne_zero, zpow_natCast, mul_div_assoc', mul_comm (quotient : ℚ), product',
    div_eq_iff (by positivity)]
  norm_cast

/-- A count times a power of ten is rounded once. -/
theorem rounds_ofScientific (count : Nat) {power : Nat} (moderate : power ≤ 2048) :
    Rounds (count * 10 ^ power) (Float.ofScientific count false power) := by
  rw [Float.ofScientific]
  split
  · next fast =>
    obtain ⟨significand, exponent, canonical, value, fields⟩ := exists_fields_toFloat fast.1
    obtain ⟨significand', exponent', canonical', -, value', fields'⟩ :=
      tabulated_power (show power < 23 by omega)
    have rounds := rounds_mul canonical canonical' fields fields'
    rw [value, value'] at rounds
    exact rounds
  · next slow =>
    change Rounds _ (.ofModel (pack (UnpackedFloat.ofScientific .binary64 count power)))
    rw [UnpackedFloat.ofScientific]
    by_cases none : count = 0
    · rw [dif_pos none, none, Nat.cast_zero, zero_mul]
      exact Rounds.zero
    · rw [dif_neg none, if_neg (by norm_num; omega), if_neg (by norm_num; omega),
        if_pos (by omega)]
      have positive : 0 < 10 ^ power := by positivity
      have fine : (-53 : Int) ≤ Format.binary64.targetExponent
          (totalExponent (count <<< 53 * 10 ^ power) (-53)) := by
        have reaches : 2 ^ 53 ≤ count <<< 53 * 10 ^ power :=
          calc 2 ^ 53 ≤ 2 ^ (count.log2 + 53) := Nat.pow_le_pow_right two_pos (by omega)
            _ ≤ count <<< 53 := pow_le_shiftLeft (Nat.pos_of_ne_zero none) 53
            _ ≤ count <<< 53 * 10 ^ power := Nat.le_mul_of_pos_right _ positive
        have log :=
          (Nat.le_log2 (Nat.ne_of_gt (Nat.lt_of_lt_of_le (by decide) reaches))).mpr reaches
        rw [targetExponent_eq]
        omega
      have rounds := Rounds.of_round (tells_exact (count <<< 53 * 10 ^ power)) fine
      have value : ((count <<< 53 * 10 ^ power : Nat) : ℚ) * 2 ^ (-53 : Int)
          = count * 10 ^ power := by
        rw [Nat.shiftLeft_eq]
        push_cast
        norm_num
        ring
      rw [value] at rounds
      exact rounds

/-- A count is rounded to a number. -/
theorem rounds_ofNat (count : Nat) : Rounds count (Float.ofNat count) := by
  have rounds := rounds_ofScientific count (Nat.zero_le 2048)
  rw [pow_zero, mul_one] at rounds
  exact rounds

/-- A point that is at most half of the least number above 0 is rounded to 0. -/
theorem Rounds.of_tiny {point : ℚ} (nonnegative : 0 ≤ point)
    (tiny : point ≤ 1 / 2 * 2 ^ (-1074 : Int)) :
    Rounds point (.ofModel (pack (.zero .positive))) := by
  have unit : (0 : ℚ) < 2 ^ (-1074 : Int) := by positivity
  have least : 0 ≤ point / 2 ^ (-1074 : Int) := div_nonneg nonnegative unit.le
  have most : point / 2 ^ (-1074 : Int) ≤ 1 / 2 := (div_le_iff₀ unit).mpr tiny
  have inside := @contains_of_rounded 0 (-1074) _ least
    ⟨by rw [Nat.cast_zero]; linarith, by rw [Nat.cast_zero]; linarith⟩
    (fun odd => absurd odd (by decide)) fun narrow => absurd narrow (by decide)
  rw [div_mul_cancel₀ _ unit.ne'] at inside
  exact of_datum canonical_zero inside

/-- A count is not much greater than 0 if it is divided by a great power of ten. -/
theorem div_pow_le_tiny {count power : Nat} (great : 2048 + count.log2 < power) :
    (count : ℚ) / 10 ^ power ≤ 1 / 2 * 2 ^ (-1074 : Int) := by
  have small : (count : ℚ) ≤ 2 ^ (count.log2 + 1) := by exact_mod_cast Nat.lt_log2_self.le
  calc (count : ℚ) / 10 ^ power ≤ 2 ^ (count.log2 + 1) / 2 ^ power := by
        gcongr
        norm_num
    _ = 2 ^ ((count.log2 + 1 : Nat) - (power : Int)) := by
        rw [zpow_sub₀ two_ne_zero, zpow_natCast, zpow_natCast]
    _ ≤ 2 ^ (-1 + -1074 : Int) := zpow_le_zpow_right₀ one_le_two (by push_cast; omega)
    _ = 1 / 2 * 2 ^ (-1074 : Int) := by
        rw [zpow_add₀ two_ne_zero]
        norm_num

/-- A count divided by a power of ten is rounded once. -/
theorem rounds_ofScientific_neg (count : Nat) {power : Nat} (positive : 0 < power) :
    Rounds (count / 10 ^ power) (Float.ofScientific count true power) := by
  rw [Float.ofScientific]
  split
  · next fast =>
    obtain ⟨significand, exponent, canonical, value, fields⟩ := exists_fields_toFloat fast.1
    obtain ⟨significand', exponent', canonical', -, value', fields'⟩ :=
      tabulated_power (show power < 23 by omega)
    have rounds := rounds_div (significand_pos (by rw [value']; positivity)) fields fields'
    rw [value, value'] at rounds
    exact rounds
  · next slow =>
    obtain ⟨less, rfl⟩ := Nat.exists_eq_succ_of_ne_zero positive.ne'
    change Rounds _ (.ofModel (pack (UnpackedFloat.ofScientific .binary64 count
      (-(less.succ : Int)))))
    rw [UnpackedFloat.ofScientific]
    by_cases none : count = 0
    · rw [dif_pos none, none, Nat.cast_zero, zero_div]
      exact Rounds.zero
    · rw [dif_neg none, if_neg (by norm_num; omega)]
      by_cases tiny : (-less.succ : Int) < -(2 ^ Format.binary64.exponentBits + count.log2)
      · rw [if_pos tiny]
        norm_num at tiny
        exact Rounds.of_tiny (by positivity) (div_pow_le_tiny (by omega))
      · rw [if_neg tiny, if_neg (by omega)]
        have rounds := Rounds.of_round (tells_fraction _ (show 0 < 10 ^ less.succ by positivity))
          (div_fine count 0 0 (Nat.pos_of_ne_zero none) (by positivity))
        rw [div_value count _ (min_le_left _ _)] at rounds
        simp only [zpow_zero, mul_one, Nat.cast_pow, Nat.cast_ofNat] at rounds
        exact rounds

end Conversions

section Magnitude

variable {point : ℚ} {number : Float} {significand : Nat} {exponent : Int}

/-- The interval of a number that is out of range starts beyond all numbers in range. -/
theorem low_of_beyond (canonical : Canonical significand exponent) (beyond : 971 < exponent) :
    (2 ^ 54 - 1 : ℚ) ≤ (Shortest.interval significand exponent).low := by
  have bit : Binary64.leadingBit = 2 ^ 52 := rfl
  have leading := canonical.leading (by omega)
  rw [Shortest.interval_low_cast exponent (by omega)]
  split
  · have reaches : (2 ^ 52 : ℚ) ≤ significand := by exact_mod_cast leading
    linarith
  · next wide =>
    have above : Binary64.leadingBit < significand := by
      refine lt_of_le_of_ne leading fun same => wide ?_
      exact (Shortest.narrowBelow_iff _ _).mpr ⟨same.symm, by omega⟩
    have reaches : (2 ^ 52 + 1 : ℚ) ≤ significand := by exact_mod_cast above
    linarith

/-- A point below the first one out of range is rounded to a finite number. -/
theorem Rounds.finite (rounds : Rounds point number)
    (below : point < (2 ^ 53 - 1 / 2) * 2 ^ (971 : Int)) :
    ∃ significand exponent, Canonical significand exponent ∧ exponent ≤ 971
      ∧ (Shortest.interval significand exponent).Contains (2 ^ (exponent - 2)) point
      ∧ Binary64.ofFloat number = .finite false significand exponent := by
  obtain ⟨significand, exponent, canonical, inside, fields⟩ := rounds
  have inRange : exponent ≤ 971 := by
    by_contra beyond
    have low := low_of_beyond canonical (not_le.mp beyond)
    have least : (2 : ℚ) ^ (970 : Int) ≤ 2 ^ (exponent - 2) :=
      zpow_le_zpow_right₀ one_le_two (by omega)
    have enough : (2 ^ 53 - 1 / 2) * (2 : ℚ) ^ (971 : Int) ≤ point :=
      calc (2 ^ 53 - 1 / 2) * (2 : ℚ) ^ (971 : Int) = (2 ^ 54 - 1) * 2 ^ (970 : Int) := by
            rw [show (971 : Int) = 970 + 1 by norm_num, zpow_add_one₀ two_ne_zero]
            generalize (2 : ℚ) ^ (970 : Int) = unit
            ring
        _ ≤ ((Shortest.interval significand exponent).low : ℚ) * 2 ^ (exponent - 2) := by
            gcongr
        _ ≤ point := inside.ends.1
    exact absurd below (not_lt.mpr enough)
  rw [if_pos inRange] at fields
  exact ⟨significand, exponent, canonical, inRange, inside, fields⟩

/-- A number to which a point of at least 1 is rounded has its leading bit. -/
theorem leading_of_contains (canonical : Canonical significand exponent)
    (inside : (Shortest.interval significand exponent).Contains (2 ^ (exponent - 2)) point)
    (large : 1 ≤ point) : 2 ^ 52 ≤ significand := by
  by_contra few
  have last : exponent = -1074 := by
    by_contra other
    have least := canonical.least
    exact few (canonical.leading (by omega))
  have tiny : (significand + 1 / 2) * (2 : ℚ) ^ exponent < 1 := by
    have most : (significand : ℚ) + 1 / 2 ≤ 2 ^ (52 : Int) := by
      have : (significand : ℚ) + 1 ≤ 2 ^ 52 := by exact_mod_cast not_le.mp few
      rw [zpow_ofNat]
      linarith
    calc (significand + 1 / 2) * (2 : ℚ) ^ exponent ≤ 2 ^ (52 : Int) * 2 ^ exponent := by gcongr
      _ = 2 ^ (-1022 : Int) := by rw [← zpow_add₀ two_ne_zero, last]; norm_num
      _ < 1 := zpow_lt_one_of_neg₀ one_lt_two (by norm_num)
  linarith [(Shortest.near_of_contains inside).2]

/-- Rounding makes a point greater by at most half of the last place. -/
theorem value_le_of_contains (canonical : Canonical significand exponent)
    (inside : (Shortest.interval significand exponent).Contains (2 ^ (exponent - 2)) point)
    (large : 1 ≤ point) :
    significand * (2 : ℚ) ^ exponent * (1 - (2 ^ 53)⁻¹) ≤ point := by
  have leading : (2 : ℚ) ^ 52 ≤ significand := by
    exact_mod_cast leading_of_contains canonical inside large
  calc significand * (2 : ℚ) ^ exponent * (1 - (2 ^ 53)⁻¹)
      = (significand - significand * (2 ^ 53)⁻¹) * 2 ^ exponent := by ring
    _ ≤ (significand - 1 / 2) * 2 ^ exponent := by
        gcongr
        norm_num
        linarith
    _ ≤ point := (Shortest.near_of_contains inside).1

/-- A product is finite if the points that its factors were rounded from stay below the last two
numbers in range: rounding three times makes a product greater by less than that. -/
theorem Rounds.mul_finite {point point' : ℚ} {first second : Float} (rounds : Rounds point first)
    (rounds' : Rounds point' second) (large : 1 ≤ point) (large' : 1 ≤ point')
    (below : point * point' ≤ (2 ^ 53 - 5 / 2) * 2 ^ (971 : Int)) :
    ∃ significand exponent,
      Binary64.ofFloat (first * second) = .finite false significand exponent := by
  have positive : (0 : ℚ) < 2 ^ (971 : Int) := by positivity
  have nonnegative : 0 ≤ point := zero_le_one.trans large
  have nonnegative' : 0 ≤ point' := zero_le_one.trans large'
  have limit : (2 ^ 53 - 5 / 2) * (2 : ℚ) ^ (971 : Int) < (2 ^ 53 - 1 / 2) * 2 ^ (971 : Int) := by
    gcongr
    norm_num
  have inRange : point < (2 ^ 53 - 1 / 2) * 2 ^ (971 : Int) :=
    ((le_mul_of_one_le_right nonnegative large').trans below).trans_lt limit
  have inRange' : point' < (2 ^ 53 - 1 / 2) * 2 ^ (971 : Int) :=
    ((le_mul_of_one_le_left nonnegative' large).trans below).trans_lt limit
  obtain ⟨significand, exponent, canonical, -, inside, fields⟩ := rounds.finite inRange
  obtain ⟨significand', exponent', canonical', -, inside', fields'⟩ := rounds'.finite inRange'
  have value := value_le_of_contains canonical inside large
  have value' := value_le_of_contains canonical' inside' large'
  have loss : (0 : ℚ) < 1 - (2 ^ 53)⁻¹ := by norm_num
  have product := mul_le_mul value value'
    (mul_nonneg (mul_nonneg (Nat.cast_nonneg _) (zpow_nonneg zero_le_two _)) loss.le) nonnegative
  rw [mul_mul_mul_comm] at product
  have room : (2 ^ 53 - 5 / 2) * (2 : ℚ) ^ (971 : Int)
      < (2 ^ 53 - 1 / 2) * 2 ^ (971 : Int) * ((1 - (2 ^ 53)⁻¹) * (1 - (2 ^ 53)⁻¹)) := by
    generalize (2 : ℚ) ^ (971 : Int) = unit at positive
    nlinarith
  have finite := lt_of_mul_lt_mul_right ((product.trans below).trans_lt room)
    (mul_pos loss loss).le
  obtain ⟨significand, exponent, -, -, -, result⟩ :=
    (rounds_mul canonical canonical' fields fields').finite finite
  exact ⟨significand, exponent, result⟩

end Magnitude

end Nonlocal.Decimal
