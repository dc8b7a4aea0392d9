import Nonlocal.Proofs.Decimal.Packed

/-!
# Rounding to the nearest number

A mantissa is shifted to its place with two more bits that tell how far from it the exact
point is, and these bits decide the rounding: to the nearest number, an exact half going to
the even neighbour. So the point lies in the interval of the number that is given.
-/

namespace Nonlocal.Decimal

open Float.Model Float.Model.UnpackedFloat

/-- What a mantissa and its residual bits tell of a point. -/
def Tells (mantissa : ExtendedMantissa) (point : ℚ) : Prop :=
  match mantissa.accuracy with
  | .exact => point = mantissa.mantissa
  | .inexact .lt => mantissa.mantissa < point ∧ point < mantissa.mantissa + 1 / 2
  | .inexact .eq => point = mantissa.mantissa + 1 / 2
  | .inexact .gt => mantissa.mantissa + 1 / 2 < point ∧ point < mantissa.mantissa + 1

namespace Tells

variable {mantissa : ExtendedMantissa} {point : ℚ}

/-- The mantissa is the point without its fraction. -/
theorem floor (tells : Tells mantissa point) :
    mantissa.mantissa ≤ point ∧ point < mantissa.mantissa + 1 := by
  obtain ⟨count, roundBit, stickyBit⟩ := mantissa
  cases roundBit <;> cases stickyBit <;>
    simp only [Tells, ExtendedMantissa.accuracy] at tells <;> constructor <;> linarith

/-- A shift by one place halves the point. -/
theorem shiftRightOne (tells : Tells mantissa point) :
    Tells mantissa.shiftRightOne (point / 2) := by
  obtain ⟨count, roundBit, stickyBit⟩ := mantissa
  have halves : (count : ℚ) = 2 * (count / 2 : Nat) + (count % 2 : Nat) := by
    exact_mod_cast (Nat.div_add_mod count 2).symm
  rcases Nat.mod_two_eq_zero_or_one count with parity | parity
  · have bit : (count % 2 != 0) = false := by rw [parity]; rfl
    rw [parity, Nat.cast_zero, add_zero] at halves
    cases roundBit <;> cases stickyBit <;>
      simp only [Tells, ExtendedMantissa.accuracy, ExtendedMantissa.shiftRightOne, bit,
        Bool.or_false, Bool.or_true] at tells ⊢
    · linarith
    all_goals constructor <;> linarith
  · have bit : (count % 2 != 0) = true := by rw [parity]; rfl
    rw [parity, Nat.cast_one] at halves
    cases roundBit <;> cases stickyBit <;>
      simp only [Tells, ExtendedMantissa.accuracy, ExtendedMantissa.shiftRightOne, bit,
        Bool.or_false, Bool.or_true] at tells ⊢
    · linarith
    all_goals constructor <;> linarith

/-- A shift divides the point by a power of two. -/
theorem shiftRight (tells : Tells mantissa point) (places : Nat) :
    Tells (mantissa >>> places) (point / 2 ^ places) := by
  change Tells (places.repeat ExtendedMantissa.shiftRightOne mantissa) _
  induction places with
  | zero => simpa [Nat.repeat] using tells
  | succ places ih =>
    rw [Nat.repeat, pow_succ, ← div_div]
    exact ih.shiftRightOne

/-- The rounded mantissa is nearest to the point; an exact half is rounded to an even one. -/
theorem roundedMantissa (tells : Tells mantissa point) :
    ((mantissa.roundedMantissa : ℚ) - 1 / 2 ≤ point ∧ point ≤ mantissa.roundedMantissa + 1 / 2)
      ∧ (mantissa.roundedMantissa % 2 = 1 → (mantissa.roundedMantissa : ℚ) - 1 / 2 < point
        ∧ point < mantissa.roundedMantissa + 1 / 2) := by
  obtain ⟨count, roundBit, stickyBit⟩ := mantissa
  cases roundBit <;> cases stickyBit <;>
    simp only [Tells, ExtendedMantissa.accuracy] at tells <;>
    simp only [ExtendedMantissa.roundedMantissa, ExtendedMantissa.accuracy,
      Accuracy.roundToNearestEven]
  · exact ⟨⟨by linarith, by linarith⟩, fun _ => ⟨by linarith, by linarith⟩⟩
  · exact ⟨⟨by linarith, by linarith⟩, fun _ => ⟨by linarith, by linarith⟩⟩
  · -- An exact half: the rounded mantissa is even.
    have even : (count + count % 2) % 2 ≠ 1 := by omega
    refine ⟨?_, fun odd => absurd odd even⟩
    rcases Nat.mod_two_eq_zero_or_one count with parity | parity <;> rw [parity] <;>
      push_cast <;> constructor <;> linarith
  · push_cast
    exact ⟨⟨by linarith, by linarith⟩, fun _ => ⟨by linarith, by linarith⟩⟩

end Tells

/-- What a shift starts from and ends at. -/
theorem shiftToExponent_spec {count : Nat} {accuracy : Accuracy} {point : ℚ} {exponent target : Int}
    (tells : Tells (.ofMantissaAndAccuracy count accuracy) point) (fine : exponent ≤ target) :
    Tells (shiftToExponent count exponent accuracy target).1 (point * 2 ^ (exponent - target))
      ∧ (shiftToExponent count exponent accuracy target).2 = target := by
  obtain ⟨places, rfl⟩ := Int.exists_add_of_le fine
  have distance : (exponent + places - exponent).toNat = places := by omega
  have factor : (2 : ℚ) ^ (exponent - (exponent + places)) = (2 ^ places)⁻¹ := by
    rw [sub_add_cancel_left, zpow_neg, zpow_natCast]
  rw [shiftToExponent, distance, factor, ← div_eq_mul_inv]
  exact ⟨tells.shiftRight places, rfl⟩

/-- A point lies in the interval of the mantissa that it rounds to. Where the interval is
narrow below, the point has to be close. -/
theorem contains_of_rounded {significand : Nat} {exponent : Int} {point : ℚ}
    (nonnegative : 0 ≤ point)
    (near : (significand : ℚ) - 1 / 2 ≤ point ∧ point ≤ significand + 1 / 2)
    (nearer : significand % 2 = 1 → (significand : ℚ) - 1 / 2 < point
      ∧ point < significand + 1 / 2)
    (narrow : Binary64.narrowBelow significand exponent = true →
      (significand : ℚ) - 1 / 4 ≤ point) :
    (Shortest.interval significand exponent).Contains (2 ^ (exponent - 2))
      (point * 2 ^ exponent) := by
  have quarter : (2 : ℚ) ^ (exponent - 2) = 1 / 4 * 2 ^ exponent := by
    rw [zpow_sub₀ two_ne_zero]
    ring
  have high : ((Shortest.interval significand exponent).high : ℚ) = 4 * significand + 2 := by
    simp [Shortest.interval]
  rw [quarter, Shortest.Interval.contains_scaled _ (by positivity)]
  unfold Shortest.Interval.Contains
  obtain rfl | positive := Nat.eq_zero_or_pos significand
  · rw [if_pos (show (Shortest.interval 0 exponent).closed = true from rfl), high]
    exact ⟨by simpa [Shortest.interval] using nonnegative, by linarith⟩
  · rw [high, Shortest.interval_low_cast exponent positive]
    split
    · refine ⟨?_, by linarith⟩
      split
      · next close => linarith [narrow close]
      · linarith
    · next notEven =>
      have odd : significand % 2 = 1 := by simpa [Shortest.interval] using notEven
      have wide : ¬Binary64.narrowBelow significand exponent = true := by
        rw [Shortest.narrowBelow_iff]
        rintro ⟨rfl, -⟩
        exact absurd odd (by decide)
      rw [if_neg wide]
      obtain ⟨above, below⟩ := nearer odd
      exact ⟨by linarith, by linarith⟩

/-- The least place of a number with a leading digit. -/
theorem targetExponent_total (total : Int) :
    Format.binary64.targetExponent total = max (total - 53) (-1074) := rfl

/-- The place to which a mantissa is shifted. -/
theorem targetExponent_eq (count : Nat) (exponent : Int) :
    Format.binary64.targetExponent (totalExponent count exponent)
      = max (count.log2 + exponent - 52) (-1074) := by
  rw [targetExponent_total, totalExponent]
  omega

/-- The fields of a rounded mantissa. If it has grown by a digit then it is a power of two, and
the last digit is dropped. -/
def carried (rounded : Nat) (place : Int) : Nat × Int :=
  if rounded < 2 ^ 53 then (rounded, place) else (2 ^ 52, place + 1)

/-- A mantissa that has been rounded is shifted once more only if it has grown by a digit. -/
theorem shift_rounded {count : Nat} {exponent : Int} (most : count ≤ 2 ^ 53)
    (least : -1074 ≤ exponent) :
    shiftToTargetExponent .binary64 count exponent .exact
      = (⟨(carried count exponent).1, false, false⟩, (carried count exponent).2) := by
  rw [shiftToTargetExponent, targetExponent_eq, carried]
  split
  · next small =>
    have log : count.log2 ≤ 52 := by
      by_cases zero : count = 0
      · simp [zero]
      · have := (Nat.log2_lt zero).mpr small
        omega
    have stays : (max ((count.log2 : Int) + exponent - 52) (-1074) - exponent).toNat = 0 := by
      omega
    simp [shiftToExponent, stays, HShiftRight.hShiftRight, Nat.repeat,
      ExtendedMantissa.ofMantissaAndAccuracy]
  · next large =>
    obtain rfl : count = 2 ^ 53 := by omega
    have once :
        (max (((2 ^ 53 : Nat).log2 : Int) + exponent - 52) (-1074) - exponent).toNat = 1 := by
      rw [Nat.log2_two_pow]
      omega
    simp only [shiftToExponent, once]
    rfl

section Carried

variable {mantissa : ExtendedMantissa} {point : ℚ} {place : Int}

/-- Rounding adds no digit beyond the next power of two. -/
theorem Tells.rounded_le (tells : Tells mantissa point) (below : point < 2 ^ 53) :
    mantissa.roundedMantissa ≤ 2 ^ 53 := by
  have near := tells.roundedMantissa.1.1
  have : (mantissa.roundedMantissa : ℚ) < (2 ^ 53 + 1 : Nat) := by
    push_cast
    linarith
  have := Nat.cast_lt.mp this
  omega

/-- Rounding takes no digit away. -/
theorem Tells.le_rounded (tells : Tells mantissa point) (normal : 2 ^ 52 ≤ point) :
    2 ^ 52 ≤ mantissa.roundedMantissa := by
  have near := tells.roundedMantissa.1.2
  have : ((2 ^ 52 : Nat) : ℚ) < (mantissa.roundedMantissa + 1 : Nat) := by
    push_cast
    linarith
  have := Nat.cast_lt.mp this
  omega

/-- A point lies in the interval of the number that it is rounded to, also if rounding adds a
digit. -/
theorem Tells.carried_spec (tells : Tells mantissa point) (least : -1074 ≤ place)
    (nonnegative : 0 ≤ point) (below : point < 2 ^ 53)
    (normal : -1074 < place → 2 ^ 52 ≤ point) :
    let fields := carried mantissa.roundedMantissa place
    Canonical fields.1 fields.2
      ∧ (Shortest.interval fields.1 fields.2).Contains (2 ^ (fields.2 - 2))
        (point * 2 ^ place) := by
  have most := tells.rounded_le below
  obtain ⟨near, nearer⟩ := tells.roundedMantissa
  simp only [carried]
  split
  · next small =>
    refine ⟨⟨small, least, fun above => tells.le_rounded (normal above)⟩, ?_⟩
    refine contains_of_rounded nonnegative near nearer fun narrow => ?_
    obtain ⟨bit, above⟩ := (Shortest.narrowBelow_iff _ place).mp narrow
    have := normal above
    rw [bit, show Binary64.leadingBit = 2 ^ 52 from rfl]
    push_cast
    linarith
  · next large =>
    have full : mantissa.roundedMantissa = 2 ^ 53 := by omega
    rw [full] at near
    push_cast at near
    dsimp only
    refine ⟨⟨by decide, by omega, fun _ => le_rfl⟩, ?_⟩
    have half : point * (2 : ℚ) ^ place = point / 2 * 2 ^ (place + 1) := by
      rw [zpow_add_one₀ two_ne_zero]
      ring
    rw [half]
    refine contains_of_rounded (by linarith) ?_ (fun odd => absurd odd (by decide)) fun _ => ?_
    · push_cast
      constructor <;> linarith
    · push_cast
      linarith

end Carried

/-- Rounding shifts a mantissa to its place, rounds it and shifts it again. -/
theorem roundWithAccuracy_eq {count : Nat} {accuracy : Accuracy} {exponent place place' : Int}
    {first second : ExtendedMantissa}
    (shifted : shiftToTargetExponent .binary64 count exponent accuracy = (first, place))
    (shiftedAgain : shiftToTargetExponent .binary64 first.roundedMantissa place .exact
      = (second, place')) :
    roundWithAccuracy .binary64 .positive count exponent accuracy
      = datum false second.mantissa place' := by
  delta roundWithAccuracy
  dsimp only
  rw [shifted]
  dsimp only
  rw [shiftedAgain]
  by_cases zero : second.mantissa = 0
  · rw [dif_pos zero, zero]
    rfl
  · rw [dif_neg zero]
    exact finite_eq_datum false place' (Nat.pos_of_ne_zero zero)

/-- A point that is told by a mantissa, counted in units of the place to which the mantissa is
shifted: it has at most 53 digits before the point, and if the place is not the last one then it
has all of them. -/
theorem shifted_bounds {count : Nat} {accuracy : Accuracy} {point : ℚ} {exponent : Int}
    (tells : Tells (.ofMantissaAndAccuracy count accuracy) point)
    (fine : exponent ≤ Format.binary64.targetExponent (totalExponent count exponent)) :
    let target := Format.binary64.targetExponent (totalExponent count exponent)
    0 ≤ point * (2 : ℚ) ^ (exponent - target) ∧ point * (2 : ℚ) ^ (exponent - target) < 2 ^ 53
      ∧ (-1074 < target → (2 : ℚ) ^ 52 ≤ point * (2 : ℚ) ^ (exponent - target)) := by
  intro target
  have targetEq : target = max (count.log2 + exponent - 52) (-1074) :=
    targetExponent_eq count exponent
  have floor : (count : ℚ) ≤ point ∧ point < count + 1 := by
    have := tells.floor
    cases accuracy with
    | exact => exact this
    | inexact order => cases order <;> exact this
  have factor : (0 : ℚ) < 2 ^ (exponent - target) := by positivity
  refine ⟨?_, ?_, ?_⟩
  · exact mul_nonneg (le_trans (Nat.cast_nonneg _) floor.1) factor.le
  · have above : (count : ℚ) + 1 ≤ 2 ^ (count.log2 + 1) := by exact_mod_cast Nat.lt_log2_self
    calc point * (2 : ℚ) ^ (exponent - target)
        < 2 ^ (count.log2 + 1) * 2 ^ (exponent - target) := by
          gcongr
          exact floor.2.trans_le above
      _ = 2 ^ (((count.log2 + 1 : Nat) : Int) + (exponent - target)) := by
          rw [zpow_add₀ two_ne_zero, zpow_natCast]
      _ ≤ 2 ^ (53 : Int) := zpow_le_zpow_right₀ one_le_two (by push_cast; omega)
      _ = 2 ^ 53 := by norm_cast
  · intro normal
    have some : count ≠ 0 := by
      rintro rfl
      rw [Nat.log2_zero] at targetEq
      omega
    have below : (2 : ℚ) ^ count.log2 ≤ count := by exact_mod_cast Nat.log2_self_le some
    calc (2 : ℚ) ^ 52 = 2 ^ ((count.log2 : Int) + (exponent - target)) := by
          rw [show (count.log2 : Int) + (exponent - target) = (52 : Nat) by omega, zpow_natCast]
      _ = 2 ^ count.log2 * 2 ^ (exponent - target) := by
          rw [zpow_add₀ two_ne_zero, zpow_natCast]
      _ ≤ point * 2 ^ (exponent - target) := by
          gcongr
          exact below.trans floor.1

/-- Rounding gives the number in whose interval the point lies. The exponent has to be small
enough for the mantissa to have all its digits. -/
theorem roundWithAccuracy_spec {count : Nat} {accuracy : Accuracy} {point : ℚ} {exponent : Int}
    (tells : Tells (.ofMantissaAndAccuracy count accuracy) point)
    (fine : exponent ≤ Format.binary64.targetExponent (totalExponent count exponent)) :
    ∃ significand exponent', Canonical significand exponent'
      ∧ (Shortest.interval significand exponent').Contains (2 ^ (exponent' - 2))
        (point * 2 ^ exponent)
      ∧ roundWithAccuracy .binary64 .positive count exponent accuracy
        = datum false significand exponent' := by
  obtain ⟨shifted, reaches⟩ := shiftToExponent_spec tells fine
  obtain ⟨nonnegative, below, normal⟩ := shifted_bounds tells fine
  set target := Format.binary64.targetExponent (totalExponent count exponent) with targetEq
  have least : -1074 ≤ target := by
    rw [targetEq, targetExponent_eq]
    exact le_max_right _ _
  have same : point * (2 : ℚ) ^ (exponent - target) * 2 ^ target = point * 2 ^ exponent := by
    rw [mul_assoc, ← zpow_add₀ two_ne_zero, sub_add_cancel]
  obtain ⟨canonical, inside⟩ := shifted.carried_spec least nonnegative below normal
  rw [same] at inside
  have start : shiftToTargetExponent .binary64 count exponent accuracy
      = ((shiftToExponent count exponent accuracy target).1, target) := Prod.ext rfl reaches
  exact ⟨_, _, canonical, inside,
    roundWithAccuracy_eq start (shift_rounded (shifted.rounded_le below) least)⟩

end Nonlocal.Decimal
