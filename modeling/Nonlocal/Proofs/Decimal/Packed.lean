import Nonlocal.Proofs.Decimal.Extent

/-!
# Fields and operations

The operations on binary64 numbers unpack their operands and pack their result. What is
unpacked are the fields of a number, and a result with the fields of a binary64 number is
packed into this number; one that is too large is packed into infinity.
-/

namespace Nonlocal.Decimal

open Float.Model Float.Model.UnpackedFloat

/-- A sign as the operations have it. -/
def signOf (negative : Bool) : Sign := if negative then .negative else .positive

/-- A finite number as the operations have it. -/
def datum (negative : Bool) (significand : Nat) (exponent : Int) : UnpackedFloat :=
  if positive : 0 < significand then .finite (signOf negative) significand exponent positive
  else .zero (signOf negative)

/-- A number that is not 0. -/
theorem finite_eq_datum (negative : Bool) {significand : Nat} (exponent : Int)
    (positive : 0 < significand) :
    UnpackedFloat.finite (signOf negative) significand exponent positive
      = datum negative significand exponent :=
  (dif_pos positive).symm

section Packing

variable (negative : Bool)

/-- The bits of three fields. -/
theorem toNat_packComponents (field : BitVec 11) (fraction : BitVec 52) :
    (packComponents .binary64 (signOf negative) field fraction).toNat
      = negative.toNat * 2 ^ 63 + field.toNat * Binary64.leadingBit + fraction.toNat := by
  have sign : (signOf negative).toBitVec.toNat = negative.toNat := by cases negative <;> rfl
  have front : ((signOf negative).toBitVec ++ field).toNat
      = negative.toNat * 2 ^ 11 + field.toNat := by
    rw [BitVec.toNat_append, ← Nat.shiftLeft_add_eq_or_of_lt field.isLt, sign, Nat.shiftLeft_eq]
  rw [packComponents, BitVec.toNat_append, ← Nat.shiftLeft_add_eq_or_of_lt (by exact fraction.isLt)]
  change ((signOf negative).toBitVec ++ field).toNat <<< 52 + fraction.toNat = _
  rw [front, Nat.shiftLeft_eq, Binary64.leadingBit_eq]
  ring

/-- Three fields are taken apart again. -/
theorem ofBits_of_fields {field fraction : Nat} (inField : field < 2047)
    (inFraction : fraction < Binary64.leadingBit) :
    Binary64.ofBits (negative.toNat * 2 ^ 63 + field * Binary64.leadingBit + fraction)
      = if field = 0 then .finite negative fraction (-1074)
        else .finite negative (Binary64.leadingBit + fraction) (Int.ofNat field - 1075) := by
  rw [Binary64.leadingBit_eq] at inFraction
  set bits := negative.toNat * 2 ^ 63 + field * Binary64.leadingBit + fraction with bitsEq
  rw [Binary64.leadingBit_eq] at bitsEq
  have flag := negative.toNat_le
  have sign : bits.testBit 63 = negative := by
    have digit : (bits.testBit 63).toNat = negative.toNat := by
      rw [Nat.toNat_testBit]
      omega
    revert digit
    cases bits.testBit 63 <;> cases negative <;> simp
  have first : bits / Binary64.leadingBit % 2048 = field := by
    rw [Binary64.leadingBit_eq]
    omega
  have second : bits % Binary64.leadingBit = fraction := by
    rw [Binary64.leadingBit_eq]
    omega
  simp only [Binary64.ofBits, sign, first, second, inField.ne, if_false]

/-- The fields of packed bits. -/
theorem ofFloat_packComponents {number : UnpackedFloat} {field : BitVec 11} {fraction : BitVec 52}
    (packed : UnpackedFloat.pack .binary64 number
      = packComponents .binary64 (signOf negative) field fraction) :
    Binary64.ofFloat (.ofModel (pack number)) = Binary64.ofBits
      (negative.toNat * 2 ^ 63 + field.toNat * Binary64.leadingBit + fraction.toNat) := by
  rw [← toNat_packComponents, ← packed]
  rfl

/-- What a number that is not 0 is packed into: its exponent is counted from the least one, and
a significand with all its digits loses the first. -/
theorem pack_datum {significand : Nat} (exponent : Int) (positive : 0 < significand) :
    UnpackedFloat.pack .binary64 (datum negative significand exponent)
      = if 2 ^ 11 ≤ (exponent + 1075).toNat + 1 then packedInfinity .binary64 (signOf negative)
        else if significand.log2 + 1 = 53 then
          packComponents .binary64 (signOf negative) (.ofNat 11 (exponent + 1075).toNat)
            (.ofNat 52 significand)
        else packComponents .binary64 (signOf negative) 0#11 (.ofNat 52 significand) := by
  have biased : (exponent + 1023 + 52).toNat = (exponent + 1075).toNat := by omega
  rw [datum, dif_pos positive, ← biased]
  rfl

/-- A number that is packed has its fields, unless it is out of range. -/
theorem ofFloat_pack {significand : Nat} {exponent : Int}
    (canonical : Canonical significand exponent) :
    Binary64.ofFloat (.ofModel (pack (datum negative significand exponent)))
      = if exponent ≤ 971 then .finite negative significand exponent else .infinite negative := by
  have bit : Binary64.leadingBit = 2 ^ 52 := rfl
  have below : significand < 2 ^ 53 := canonical.below
  have least := canonical.least
  obtain rfl | positive := Nat.eq_zero_or_pos significand
  · have last : exponent = -1074 := by
      by_contra other
      exact absurd (canonical.leading (by omega)) (by decide)
    subst last
    cases negative <;> rfl
  · have packed := pack_datum negative exponent positive
    by_cases inRange : exponent ≤ 971
    · rw [if_neg (by omega)] at packed
      rw [if_pos inRange]
      by_cases normal : 2 ^ 52 ≤ significand
      · have digits : significand.log2 + 1 = 53 := by
          rw [(Nat.log2_eq_iff positive.ne').mpr ⟨normal, below⟩]
        have field : (BitVec.ofNat 11 (exponent + 1075).toNat).toNat = (exponent + 1075).toNat := by
          rw [BitVec.toNat_ofNat]
          omega
        have fraction : (BitVec.ofNat 52 significand).toNat = significand - 2 ^ 52 := by
          rw [BitVec.toNat_ofNat]
          omega
        rw [if_pos digits] at packed
        rw [ofFloat_packComponents negative packed, field, fraction,
          ofBits_of_fields negative (by omega) (by omega), if_neg (by omega), bit,
          show 2 ^ 52 + (significand - 2 ^ 52) = significand by omega,
          show Int.ofNat (exponent + 1075).toNat - 1075 = exponent by
            rw [Int.ofNat_eq_natCast]; omega]
      · have digits : significand.log2 + 1 ≠ 53 := by
          have := (Nat.log2_lt positive.ne').mpr (not_le.mp normal)
          omega
        have last : exponent = -1074 := by
          by_contra other
          exact normal (canonical.leading (by omega))
        have fraction : (BitVec.ofNat 52 significand).toNat = significand := by
          rw [BitVec.toNat_ofNat]
          omega
        rw [if_neg digits] at packed
        rw [ofFloat_packComponents negative packed, fraction, BitVec.toNat_ofNat, Nat.zero_mod,
          ofBits_of_fields negative (by decide) (by omega), if_pos rfl, last]
    · rw [if_pos (by omega)] at packed
      rw [if_neg inRange]
      exact (ofFloat_packComponents negative packed).trans (by cases negative <;> decide)

end Packing

section Unpacking

/-- The mantissa and the exponent of a number as its bits have them. -/
theorem unpack_fields (bits : BitVec 64) :
    (@unpackMantissa .binary64 bits).toNat = bits.toNat % Binary64.leadingBit
      ∧ (@unpackExponent .binary64 bits).toNat = bits.toNat / Binary64.leadingBit % 2048 := by
  constructor
  · simp only [unpackMantissa, BitVec.toNat_cast, BitVec.extractLsb_toNat, Nat.shiftRight_zero]
    rfl
  · simp only [unpackExponent, BitVec.toNat_cast, BitVec.extractLsb_toNat,
      Nat.shiftRight_eq_div_pow]
    rfl

/-- The sign of a number as its bits have it. -/
theorem unpack_sign (bits : BitVec 64) :
    Sign.ofBitVec (@unpackSign .binary64 bits) = signOf (bits.toNat.testBit 63) := by
  have digit : (@unpackSign .binary64 bits).toNat = (bits.toNat.testBit 63).toNat := by
    rw [Nat.toNat_testBit]
    delta unpackSign
    simp only [BitVec.toNat_cast, BitVec.extractLsb_toNat,
      Nat.shiftRight_eq_div_pow]
  rw [Sign.ofBitVec, signOf]
  cases sign : bits.toNat.testBit 63 with
  | true =>
    rw [sign] at digit
    have set : @unpackSign .binary64 bits ≠ 0#1 := by
      intro zero
      rw [zero] at digit
      cases digit
    rw [if_neg set, if_pos rfl]
  | false =>
    rw [sign] at digit
    rw [if_pos (BitVec.eq_of_toNat_eq digit), if_neg Bool.false_ne_true]

/-- A finite number is unpacked to its fields. -/
theorem unpack_of_fields {number : Float} {negative : Bool} {significand : Nat} {exponent : Int}
    (fields : Binary64.ofFloat number = .finite negative significand exponent) :
    number.toModel.unpack = datum negative significand exponent := by
  have bits : number.toModel.toBits.toBitVec.toNat = number.toBits.toNat := rfl
  have bias : ((Format.binary64.exponentBias : Int) + (52 : Nat)) = 1075 := rfl
  obtain ⟨mantissa, field⟩ := unpack_fields number.toModel.toBits.toBitVec
  have sign := unpack_sign number.toModel.toBits.toBitVec
  rw [bits] at mantissa field sign
  simp only [Binary64.ofFloat, Binary64.ofBits] at fields
  rw [Float.Model.unpack]
  delta UnpackedFloat.unpack
  dsimp only
  split_ifs at fields with special _ subnormal
  · obtain ⟨rfl, rfl, rfl⟩ := Binary64.finite.inj fields
    have zero : @unpackExponent .binary64 number.toModel.toBits.toBitVec = 0#11 := by
      apply BitVec.eq_of_toNat_eq
      rw [field, subnormal]
      rfl
    rw [zero, sign, if_neg (by decide), if_pos rfl]
    by_cases none : @unpackMantissa .binary64 number.toModel.toBits.toBitVec = 0#52
    · rw [dif_pos none, ← mantissa, none]
      rfl
    · rw [dif_neg none, finite_eq_datum, mantissa]
      rfl
  · obtain ⟨rfl, rfl, rfl⟩ := Binary64.finite.inj fields
    have finite : @unpackExponent .binary64 number.toModel.toBits.toBitVec ≠ -1#11 :=
      fun same => special (field.symm.trans (congrArg BitVec.toNat same))
    have normal : @unpackExponent .binary64 number.toModel.toBits.toBitVec ≠ 0#11 :=
      fun same => subnormal (field.symm.trans (congrArg BitVec.toNat same))
    have leading : (1#1 ++ @unpackMantissa .binary64 number.toModel.toBits.toBitVec).toNat
        = Binary64.leadingBit + number.toBits.toNat % Binary64.leadingBit := by
      rw [BitVec.toNat_append, ← Nat.shiftLeft_add_eq_or_of_lt (by exact BitVec.isLt _), mantissa]
      rfl
    rw [if_neg finite, if_neg normal, sign, finite_eq_datum, leading, field, bias]
    rfl

/-- A number that is finite has the fields of one. -/
theorem fields_of_isFinite {number : Float} (finite : number.isFinite) :
    ∃ negative significand exponent,
      Binary64.ofFloat number = .finite negative significand exponent := by
  have bits : number.toModel.toBits.toBitVec.toNat = number.toBits.toNat := rfl
  have field := (unpack_fields number.toModel.toBits.toBitVec).2
  rw [bits] at field
  by_cases special : number.toBits.toNat / Binary64.leadingBit % 2048 = 2047
  · have all : @unpackExponent .binary64 number.toModel.toBits.toBitVec = -1#11 := by
      apply BitVec.eq_of_toNat_eq
      rw [field, special]
      rfl
    change number.toModel.unpack.isFinite = true at finite
    rw [Float.Model.unpack] at finite
    delta UnpackedFloat.unpack at finite
    dsimp only at finite
    rw [all, if_pos rfl] at finite
    split at finite <;> cases finite
  · rw [Binary64.ofFloat, Binary64.ofBits, if_neg special]
    split
    · exact ⟨_, _, _, rfl⟩
    · exact ⟨_, _, _, rfl⟩

/-- A number with finite fields is not infinite. -/
theorem isInf_of_fields {number : Float} {negative : Bool} {significand : Nat} {exponent : Int}
    (fields : Binary64.ofFloat number = .finite negative significand exponent) :
    number.isInf = false := by
  change number.toModel.unpack.isInf = false
  rw [unpack_of_fields fields]
  obtain rfl | positive := Nat.eq_zero_or_pos significand
  · rfl
  · rw [← finite_eq_datum negative exponent positive]
    rfl

end Unpacking

/-- Changing the sign changes nothing else. -/
theorem ofFloat_neg {number : Float} {negative : Bool} {significand : Nat} {exponent : Int}
    (fields : Binary64.ofFloat number = .finite negative significand exponent) :
    Binary64.ofFloat (-number) = .finite (!negative) significand exponent := by
  obtain ⟨canonical, inRange⟩ := Binary64.canonical_of_fields fields
  have opposite : (datum negative significand exponent).neg
      = datum (!negative) significand exponent := by
    obtain rfl | positive := Nat.eq_zero_or_pos significand
    · cases negative <;> rfl
    · rw [← finite_eq_datum _ _ positive, ← finite_eq_datum _ _ positive]
      cases negative <;> rfl
  change Binary64.ofFloat (.ofModel (pack number.toModel.unpack.neg)) = _
  rw [unpack_of_fields fields, opposite, ofFloat_pack _ canonical, if_pos inRange]

end Nonlocal.Decimal
