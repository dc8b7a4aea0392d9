import Nonlocal.Proofs.Record.Written

/-!
# The digits that are gathered

A reader gathers the digits of a numeral into a word. As long as they fit none is dropped,
and the word with the exponent that is left is the decimal that was written.
-/

namespace Nonlocal.Record

open Decimal

/-- A number with more digits after those it has. -/
def withDigits (value : Nat) (digits : List Char) : Nat :=
  digits.foldl (fun value digit => value * 10 + digitValue digit) value

/-- More digits do not make a number smaller. -/
theorem le_withDigits (value : Nat) (digits : List Char) : value ≤ withDigits value digits := by
  induction digits generalizing value with
  | nil => exact Nat.le_refl value
  | cons digit rest ih => exact le_trans (by omega) (ih (value * 10 + digitValue digit))

/-- Digits are gathered in full if the number that they make fits. -/
theorem gather_eq {digits : List Char} {significand : Nat} (used : Nat)
    (fits : withDigits significand digits < Word.limit) :
    gather significand used digits = (withDigits significand digits, used + digits.length) := by
  induction digits generalizing significand used with
  | nil => rfl
  | cons digit rest ih =>
    have grows := le_withDigits (significand * 10 + digitValue digit) rest
    rw [gather, if_pos (grows.trans_lt fits), ih _ fits, List.length_cons, Nat.add_right_comm,
      Nat.add_assoc]
    rfl

namespace Numeral

/-- The digits after the point, if there are any. -/
def fractionDigits (numeral : Numeral) : List Char := numeral.fraction.getD []

/-- The exponent that is written. -/
def power (numeral : Numeral) : Int :=
  match numeral.exponent with
  | none => 0
  | some (isNegative, digits) =>
    if isNegative then -Int.ofNat (ofDigits digits) else Int.ofNat (ofDigits digits)

/-- All digits of a numeral, with the exponent that is left for them. -/
def gathered (numeral : Numeral) : Scaled :=
  ⟨ofDigits (numeral.whole ++ numeral.fractionDigits),
    numeral.power - Int.ofNat numeral.fractionDigits.length⟩

/-- If the digits and the exponent fit their words then the magnitude of a numeral is
computed from all of them. -/
theorem magnitude?_eq {numeral : Numeral} (fits : numeral.gathered.digits < Word.limit)
    (moderate : numeral.power.natAbs ≤ exponentLimit) :
    numeral.magnitude?
      = scale? (Float.ofNat numeral.gathered.digits) numeral.gathered.exponent := by
  have all : numeral.gathered.digits
      = withDigits (ofDigits numeral.whole) numeral.fractionDigits := List.foldl_append
  have whole : gather 0 0 numeral.whole = (ofDigits numeral.whole, 0 + numeral.whole.length) :=
    gather_eq 0 ((le_withDigits _ _).trans_lt (all ▸ fits))
  have fraction : gather (ofDigits numeral.whole) 0 numeral.fractionDigits
      = (numeral.gathered.digits, 0 + numeral.fractionDigits.length) := by
    rw [gather_eq 0 (all ▸ fits), all]
  rw [magnitude?]
  simp only [whole, ← fractionDigits.eq_1, fraction, zero_add, Nat.sub_self, gathered, power]
    at moderate ⊢
  cases power : numeral.exponent with
  | none => simp
  | some parts =>
    obtain ⟨isNegative, digits⟩ := parts
    have allowed : ¬exponentLimit < ofDigits digits := by
      rw [power] at moderate
      cases isNegative <;> simpa using moderate
    simp only [allowed, if_false]
    congr 1
    split <;> simp only [Int.ofNat_eq_natCast] <;> omega

variable (isNegative : Bool) (whole : List Char)

/-- The places after the point are divided out. -/
theorem gathered_of_fraction (fraction : List Char) :
    gathered ⟨isNegative, whole, some fraction, none⟩
      = ⟨ofDigits (whole ++ fraction), -Int.ofNat fraction.length⟩ := by
  simp [gathered, fractionDigits, power]

/-- The written exponent of an integer is this integer. -/
theorem power_of_exponent (fraction : Option (List Char)) (exponent : Int) :
    power ⟨isNegative, whole, fraction,
      some (decide (exponent < 0), Nat.toDigits 10 exponent.natAbs)⟩ = exponent := by
  simp only [power, Identifier.ofDigits_toDigits, decide_eq_true_eq, Int.ofNat_eq_natCast]
  split <;> omega

end Numeral

/-- The decimal that is gathered where a decimal has been written. A whole number that is
written out has a zero after its point. -/
def writtenOut (scaled : Scaled) : Scaled :=
  if scaled.isPositional then
    if 0 ≤ scaled.exponent then ⟨scaled.digits * 10 ^ (scaled.exponent.toNat + 1), -1⟩
    else scaled
  else scaled

/-- The digits of a numeral and what is left of its exponent are those of its decimal. -/
theorem gathered_decimalNumeral (isNegative : Bool) (scaled : Scaled) :
    (decimalNumeral isNegative scaled).gathered = writtenOut scaled := by
  obtain ⟨count, exponent⟩ := scaled
  have value : ofDigits (Nat.toDigits 10 count) = count := Identifier.ofDigits_toDigits count
  have positive : 0 < (Nat.toDigits 10 count).length := Nat.length_toDigits_pos
  simp only [decimalNumeral, writtenOut]
  split
  · split
    · next whole =>
      rw [Numeral.gathered_of_fraction, List.append_assoc, ← List.replicate_succ',
        ofDigits_append_zeros, value]
      rfl
    · next fraction =>
      split
      · next short =>
        rw [Numeral.gathered_of_fraction, List.take_append_drop, value, List.length_drop,
          Int.ofNat_eq_natCast]
        congr 1
        omega
      · next long =>
        rw [Numeral.gathered_of_fraction, ← List.append_assoc, ← List.replicate_one,
          List.replicate_append_replicate, ofDigits_zeros_append, value, List.length_append,
          List.length_replicate, Int.ofNat_eq_natCast]
        congr 1
        omega
  · have rest : (if (Nat.toDigits 10 count).length = 1 then none
        else some ((Nat.toDigits 10 count).drop 1)).getD [] = (Nat.toDigits 10 count).drop 1 := by
      split
      · next single => exact (List.drop_eq_nil_of_le single.le).symm
      · rfl
    have leading : Scaled.leading ⟨count, exponent⟩
        = exponent + ((Nat.toDigits 10 count).length : Int) - 1 := rfl
    rw [Numeral.gathered, Numeral.power_of_exponent, Numeral.fractionDigits]
    simp only [rest]
    rw [List.take_append_drop, value, List.length_drop, leading, Int.ofNat_eq_natCast]
    congr 1
    omega

/-- A decimal in a record is no integer: it has a fraction or an exponent. The exponent, if
there is one, is that of the leading digit. -/
theorem decimalNumeral_parts (isNegative : Bool) (scaled : Scaled) :
    (decimalNumeral isNegative scaled).isNegative = isNegative
      ∧ ((decimalNumeral isNegative scaled).fraction.isNone
        && (decimalNumeral isNegative scaled).exponent.isNone) = false
      ∧ ((decimalNumeral isNegative scaled).power = 0
        ∨ (decimalNumeral isNegative scaled).power = scaled.leading) := by
  simp only [decimalNumeral]
  split
  · split
    · exact ⟨rfl, rfl, .inl rfl⟩
    · split <;> exact ⟨rfl, rfl, .inl rfl⟩
  · exact ⟨rfl, Bool.and_false _, .inr (Numeral.power_of_exponent _ _ _ _)⟩

/-- The number of a decimal in a record is computed from the decimal that is gathered. -/
theorem number?_decimalNumeral (isNegative : Bool) {scaled : Scaled}
    (fits : (writtenOut scaled).digits < Word.limit)
    (moderate : scaled.leading.natAbs ≤ exponentLimit) :
    (decimalNumeral isNegative scaled).number?
      = (scale? (Float.ofNat (writtenOut scaled).digits) (writtenOut scaled).exponent).map
        fun magnitude => .floating (if isNegative then -magnitude else magnitude) := by
  obtain ⟨sign, noInteger, power⟩ := decimalNumeral_parts isNegative scaled
  have allowed : (decimalNumeral isNegative scaled).power.natAbs ≤ exponentLimit := by
    obtain power | power := power <;> rw [power]
    · exact Nat.zero_le _
    · exact moderate
  have gathered := gathered_decimalNumeral isNegative scaled
  rw [Numeral.number?, noInteger, Numeral.magnitude?_eq (gathered ▸ fits) allowed, gathered, sign]
  rfl

end Nonlocal.Record
