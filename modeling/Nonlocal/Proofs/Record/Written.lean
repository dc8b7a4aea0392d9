import Nonlocal.Proofs.Decimal.Extent
import Nonlocal.Proofs.Record.Numerals

/-!
# The numeral of a probability

A record writes a probability as the shortest decimal that tells it from every other
number, with a point, an exponent or both. So it is never taken for an integer, and the
digits that a reader gathers are those of the shortest decimal; a whole number that is
written out adds the zero after its point.
-/

namespace Nonlocal.Decimal

/-- Whether a record writes a decimal without an exponent. -/
def Scaled.isPositional (scaled : Scaled) : Bool :=
  scaled.digits = 0 || (-5 ≤ scaled.leading && scaled.leading ≤ 15)

/-- A decimal that counts in units is 0 only without an exponent. -/
def Scaled.Plain (scaled : Scaled) : Prop := scaled.digits = 0 → scaled.exponent = 0

end Nonlocal.Decimal

namespace Nonlocal.Record

open Decimal

/-- The numeral of a decimal. -/
def decimalNumeral (isNegative : Bool) (scaled : Scaled) : Numeral :=
  let digits := Nat.toDigits 10 scaled.digits
  if scaled.isPositional then
    if 0 ≤ scaled.exponent then
      ⟨isNegative, digits ++ List.replicate scaled.exponent.toNat '0', some ['0'], none⟩
    else
      let places := (-scaled.exponent).toNat
      if places < digits.length then
        ⟨isNegative, digits.take (digits.length - places),
          some (digits.drop (digits.length - places)), none⟩
      else ⟨isNegative, ['0'], some (List.replicate (places - digits.length) '0' ++ digits), none⟩
  else
    ⟨isNegative, digits.take 1, if digits.length = 1 then none else some (digits.drop 1),
      some (decide (scaled.leading < 0), Nat.toDigits 10 scaled.leading.natAbs)⟩

/-- The text of a decimal in a record is the text of its numeral. -/
theorem toList_magnitudeText (isNegative : Bool) (scaled : Scaled) :
    (Layout.record.magnitudeText scaled).toList
      = (decimalNumeral isNegative scaled).unsignedText := by
  have layout : Layout.record.magnitudeText scaled
      = if scaled.isPositional then positionalText ".0" scaled
        else Decimal.exponentText scaled.leading scaled.digits := rfl
  rw [layout, decimalNumeral]
  split
  · simp only [positionalText]
    split_ifs <;> simp [Numeral.unsignedText, fractionText, exponentText, zeros]
  · obtain ⟨first, later, digits⟩ :=
      List.exists_cons_of_ne_nil (@Nat.toDigits_ne_nil scaled.digits 10)
    rw [Decimal.exponentText, digits]
    cases later <;> split_ifs <;>
      simp_all [Numeral.unsignedText, fractionText, exponentText]

/-- The text of a finite number in a record is the text of its numeral. -/
theorem toList_record_text {number : Float} {isNegative : Bool} {significand : Nat}
    {exponent : Int} (fields : Binary64.ofFloat number = .finite isNegative significand exponent) :
    (Layout.record.text number).toList
      = (decimalNumeral isNegative (Shortest.ofBinary .toEven significand exponent)).text := by
  have sign (scaled : Scaled) : (decimalNumeral isNegative scaled).isNegative = isNegative := by
    simp only [decimalNumeral]
    split_ifs <;> rfl
  rw [Layout.text, fields, Numeral.text, sign, ← toList_magnitudeText]
  cases isNegative <;> simp [Layout.record]

/-- Zeros are a row of digits, and so are digits after them. -/
theorem isDigits_zeros_append (count : Nat) {digits : List Char} (isDigits : IsDigits digits) :
    IsDigits (List.replicate count '0' ++ digits) where
  nonempty := by simp [isDigits.nonempty]
  all := by
    simp only [List.mem_append]
    exact fun char member => member.elim (isDigit_zeros count char) (isDigits.all char)

/-- The first digits of a count. -/
theorem isDigits_take (count : Nat) {kept : Nat} (positive : 0 < kept) :
    IsDigits ((Nat.toDigits 10 count).take kept) where
  nonempty := by simp [Nat.toDigits_ne_nil, positive.ne']
  all := fun char member => (isDigits_toDigits count).all char (List.mem_of_mem_take member)

/-- The last digits of a count. -/
theorem isDigits_drop (count : Nat) {dropped : Nat}
    (fewer : dropped < (Nat.toDigits 10 count).length) :
    IsDigits ((Nat.toDigits 10 count).drop dropped) where
  nonempty := by simpa using fewer
  all := fun char member => (isDigits_toDigits count).all char (List.mem_of_mem_drop member)

/-- A beginning of a count's digits has no leading zero either. -/
theorem take_noLeadingZero (count kept : Nat) :
    ∀ later, (Nat.toDigits 10 count).take kept = '0' :: later → later = [] := by
  intro later zero
  obtain ⟨first, rest, digits⟩ := List.exists_cons_of_ne_nil (@Nat.toDigits_ne_nil count 10)
  cases kept with
  | zero => simp at zero
  | succ kept =>
    rw [digits, List.take_succ_cons] at zero
    obtain ⟨rfl, rfl⟩ := List.cons.inj zero
    rw [toDigits_noLeadingZero count rest digits, List.take_nil]

/-- A count with zeros after it has no leading zero, unless it is zero. -/
theorem append_noLeadingZero {count zeros : Nat} (plain : count = 0 → zeros = 0) :
    ∀ later, Nat.toDigits 10 count ++ List.replicate zeros '0' = '0' :: later → later = [] := by
  intro later zero
  obtain ⟨first, rest, digits⟩ := List.exists_cons_of_ne_nil (@Nat.toDigits_ne_nil count 10)
  rw [digits, List.cons_append] at zero
  obtain ⟨rfl, rfl⟩ := List.cons.inj zero
  obtain rfl := toDigits_noLeadingZero count rest digits
  rw [plain (toDigits_injective digits), List.replicate_zero, List.append_nil]

/-- The numeral of a decimal is well-formed. -/
theorem decimalNumeral_wellFormed (isNegative : Bool) {scaled : Scaled} (plain : scaled.Plain) :
    (decimalNumeral isNegative scaled).WellFormed := by
  have isDigits := isDigits_toDigits scaled.digits
  have positive : 0 < (Nat.toDigits 10 scaled.digits).length := Nat.length_toDigits_pos
  simp only [decimalNumeral]
  split_ifs with positional whole short single
  · exact {
      whole := ⟨by simp [isDigits.nonempty], fun char member =>
        (List.mem_append.mp member).elim (isDigits.all char) (isDigit_zeros _ char)⟩
      noLeadingZero := append_noLeadingZero fun zero => by rw [plain zero, Int.toNat_zero]
      fraction := by
        rintro _ ⟨⟩
        exact ⟨by simp, by simp⟩
      exponent := by simp }
  · exact {
      whole := isDigits_take _ (by omega)
      noLeadingZero := take_noLeadingZero _ _
      fraction := by
        rintro _ ⟨⟩
        exact isDigits_drop _ (by omega)
      exponent := by simp }
  · exact {
      whole := ⟨by simp, by simp⟩
      noLeadingZero := by simp
      fraction := by
        rintro _ ⟨⟩
        exact isDigits_zeros_append _ isDigits
      exponent := by simp }
  · exact {
      whole := isDigits_take _ Nat.one_pos
      noLeadingZero := take_noLeadingZero _ _
      fraction := by simp
      exponent := by
        rintro _ _ ⟨⟩
        exact isDigits_toDigits _ }
  · exact {
      whole := isDigits_take _ Nat.one_pos
      noLeadingZero := take_noLeadingZero _ _
      fraction := by
        rintro _ ⟨⟩
        exact isDigits_drop _ (by omega)
      exponent := by
        rintro _ _ ⟨⟩
        exact isDigits_toDigits _ }

end Nonlocal.Record
