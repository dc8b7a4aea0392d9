import Nonlocal.Decimal.Layout
import Nonlocal.Proofs.Decimal.Rounding
import Nonlocal.Proofs.Identifier.Generated
import Nonlocal.Proofs.Text.Joined

/-!
# Plain decimals tell numbers apart

A number of a model is written out in decimals. The text says which number it is: the
digits and the place of the point give the shortest decimal, and this decimal lies in the
interval of one number only. A sign, and the words for infinity and for a value that is
not a number, are told apart by their first characters. Nothing is assumed of the
numbers; zero with a sign and zero without one have different texts.
-/

namespace Nonlocal.Decimal

/-- The texts of a number that is written without an exponent: digits, and possibly a
point and more digits. -/
inductive Writes : List Char → ℚ → Prop where
  | whole {digits : List Char} (nonempty : digits ≠ [])
      (all : ∀ char ∈ digits, char.isDigit = true) : Writes digits (ofDigits digits)
  | pointed (whole fraction : List Char) (nonempty : whole ≠ [])
      (all : ∀ char ∈ whole, char.isDigit = true) (all' : ∀ char ∈ fraction, char.isDigit = true) :
      Writes (whole ++ '.' :: fraction) (ofDigits (whole ++ fraction) / 10 ^ fraction.length)

namespace Writes

variable {text : List Char} {value other : ℚ}

/-- No digit is a point. -/
theorem point_not_mem {digits : List Char} (all : ∀ char ∈ digits, char.isDigit = true) :
    '.' ∉ digits := fun member => absurd (all '.' member) (by decide)

/-- A text writes one number. -/
theorem unique (writes : Writes text value) (writes' : Writes text other) : value = other := by
  cases writes with
  | whole nonempty all =>
    cases writes' with
    | whole => rfl
    | pointed => exact (point_not_mem all (by simp)).elim
  | pointed whole fraction nonempty all all' =>
    generalize same : whole ++ '.' :: fraction = text' at writes'
    cases writes' with
    | whole nonempty' all'' => exact (point_not_mem (same ▸ all'') (by simp)).elim
    | pointed whole' fraction' nonempty' all'' all''' =>
      obtain ⟨rfl, rfl⟩ := Text.cut_unique (point_not_mem all) (point_not_mem all'') same
      rfl

/-- There are only digits and points. -/
theorem chars (writes : Writes text value) :
    ∀ char ∈ text, char.isDigit = true ∨ char = '.' := by
  cases writes with
  | whole nonempty all => exact fun char member => .inl (all char member)
  | pointed whole fraction nonempty all all' =>
    intro char member
    rcases List.mem_append.mp member with before | later
    · exact .inl (all char before)
    · rcases List.mem_cons.mp later with point | after
      · exact .inr point
      · exact .inl (all' char after)

/-- A digit comes first. -/
theorem starts (writes : Writes text value) :
    ∃ first rest, text = first :: rest ∧ first.isDigit = true := by
  have opens {digits : List Char} (nonempty : digits ≠ [])
      (all : ∀ char ∈ digits, char.isDigit = true) :
      ∃ first rest, digits = first :: rest ∧ first.isDigit = true := by
    obtain ⟨first, rest, rfl⟩ := List.exists_cons_of_ne_nil nonempty
    exact ⟨first, rest, rfl, all first List.mem_cons_self⟩
  cases writes with
  | whole nonempty all => exact opens nonempty all
  | pointed whole fraction nonempty all all' =>
    obtain ⟨first, rest, rfl, digit⟩ := opens nonempty all
    exact ⟨first, _, rfl, digit⟩

end Writes

/-- Zeros after digits multiply by a power of ten. -/
theorem ofDigits_append_zeros (digits : List Char) (count : Nat) :
    ofDigits (digits ++ List.replicate count '0') = ofDigits digits * 10 ^ count := by
  induction count with
  | zero => simp
  | succ count ih =>
    rw [List.replicate_succ', ← List.append_assoc, ofDigits, List.foldl_append, ← ofDigits, ih]
    simp [digitValue, pow_succ, mul_assoc]

/-- Zeros before digits change nothing. -/
theorem ofDigits_zeros_append (count : Nat) (digits : List Char) :
    ofDigits (List.replicate count '0' ++ digits) = ofDigits digits := by
  induction count with
  | zero => simp
  | succ count ih =>
    rw [List.replicate_succ, List.cons_append, ofDigits, List.foldl_cons]
    exact ih

/-- The digits of a count are digits. -/
theorem isDigit_toDigits (count : Nat) : ∀ char ∈ Nat.toDigits 10 count, char.isDigit = true :=
  fun _ => Nat.isDigit_of_mem_toDigits (by decide) (by decide)

/-- Different counts have different digits. -/
theorem toDigits_injective : Function.Injective (Nat.toDigits 10) := by
  intro first second same
  rw [← Nat.ofDigitChars_ten_toDigits (n := first), same, Nat.ofDigitChars_ten_toDigits]

/-- Zeros are digits. -/
theorem isDigit_zeros (count : Nat) :
    ∀ char ∈ List.replicate count '0', char.isDigit = true := by
  intro char member
  obtain ⟨-, rfl⟩ := List.mem_replicate.mp member
  decide

/-- A decimal without an exponent writes its number. -/
theorem writes_positionalText (scaled : Scaled) :
    Writes (positionalText "" scaled).toList scaled.value := by
  obtain ⟨count, exponent⟩ := scaled
  set digits := Nat.toDigits 10 count with digitsEq
  have read : ofDigits digits = count := Identifier.ofDigits_toDigits count
  have all := isDigit_toDigits count
  rw [← digitsEq] at all
  simp only [positionalText, ← digitsEq]
  split
  · next nonnegative =>
    obtain ⟨power, rfl⟩ := Int.eq_ofNat_of_zero_le nonnegative
    have text : (String.ofList digits ++ zeros (power : Int).toNat ++ "").toList
        = digits ++ List.replicate power '0' := by simp [zeros]
    have value : Scaled.value ⟨count, power⟩
        = ofDigits (digits ++ List.replicate power '0') := by
      rw [ofDigits_append_zeros, read]
      simp [Scaled.value]
    rw [text, value]
    refine .whole (by simp [digitsEq, Nat.toDigits_ne_nil]) ?_
    simp only [List.mem_append]
    exact fun char member => member.elim (all char) (isDigit_zeros power char)
  · next negative =>
    obtain ⟨places, rfl⟩ : ∃ places : Nat, exponent = -places := ⟨(-exponent).toNat, by omega⟩
    have value : Scaled.value ⟨count, -(places : Int)⟩ = count / 10 ^ places := by
      simp [Scaled.value, div_eq_mul_inv]
    rw [value, neg_neg, Int.toNat_natCast]
    split
    · next short =>
      -- The point stands inside the digits.
      have fraction : (digits.drop (digits.length - places)).length = places := by
        rw [List.length_drop]
        omega
      have text : (String.ofList (digits.take (digits.length - places)) ++ "."
          ++ String.ofList (digits.drop (digits.length - places))).toList
          = digits.take (digits.length - places)
            ++ '.' :: digits.drop (digits.length - places) := by simp
      have writes := Writes.pointed (digits.take (digits.length - places))
        (digits.drop (digits.length - places))
        (List.ne_nil_of_length_pos (by rw [List.length_take]; omega))
        (fun char member => all char (List.mem_of_mem_take member))
        (fun char member => all char (List.mem_of_mem_drop member))
      rwa [List.take_append_drop, read, fraction, ← text] at writes
    · next long =>
      -- Zeros fill the places between the point and the digits.
      have fraction : (List.replicate (places - digits.length) '0' ++ digits).length = places := by
        rw [List.length_append, List.length_replicate]
        omega
      have text : ("0." ++ zeros (places - digits.length) ++ String.ofList digits).toList
          = ['0'] ++ '.' :: (List.replicate (places - digits.length) '0' ++ digits) := by
        simp [zeros]
      have writes := Writes.pointed ['0']
        (List.replicate (places - digits.length) '0' ++ digits) (by simp)
        (List.all_eq_true.mp (by decide)) (by
          simp only [List.mem_append]
          exact fun char member => member.elim (isDigit_zeros _ char) (all char))
      rwa [← List.append_assoc, ← List.replicate_one, List.replicate_append_replicate,
        ofDigits_zeros_append, read, fraction, List.replicate_one, ← text] at writes

namespace Binary64

/-- The leading bit as a numeral. -/
theorem leadingBit_eq : leadingBit = 4503599627370496 := rfl

/-- The significand and the exponent, if there are any, are those of some binary64 number. -/
protected def Canonical : Binary64 → Prop
  | .finite _ significand exponent => Decimal.Canonical significand exponent
  | _ => True

/-- The fields of a bit pattern are those of some binary64 number. -/
theorem canonical_ofBits (bits : Nat) : (ofBits bits).Canonical := by
  have fraction := Nat.mod_lt bits (show 0 < leadingBit by decide)
  simp only [ofBits]
  split_ifs
  · trivial
  · trivial
  · exact ⟨by omega, le_rfl, fun less => (lt_irrefl _ less).elim⟩
  · exact ⟨by omega, by simp only [Int.ofNat_eq_natCast]; omega, fun _ => Nat.le_add_right _ _⟩

/-- The fields of a number are those of some binary64 number. -/
theorem canonical_ofFloat (number : Float) : (ofFloat number).Canonical := canonical_ofBits _

/-- The three fields put a bit pattern together again. -/
theorem bits_eq {bits : Nat} (word : bits < 2 ^ 64) :
    bits = (bits.testBit 63).toNat * 2 ^ 63 + bits / leadingBit % 2048 * leadingBit
      + bits % leadingBit := by
  rw [Nat.toNat_testBit, leadingBit_eq]
  omega

/-- Patterns with one sign, one exponent field and one fraction are equal. -/
theorem bits_unique {bits bits' : Nat} (word : bits < 2 ^ 64) (word' : bits' < 2 ^ 64)
    (sign : bits.testBit 63 = bits'.testBit 63)
    (field : bits / leadingBit % 2048 = bits' / leadingBit % 2048)
    (fraction : bits % leadingBit = bits' % leadingBit) : bits = bits' := by
  rw [bits_eq word, bits_eq word', sign, field, fraction]

/-- The fields of a pattern give the pattern back, unless they say no number. -/
theorem ofBits_injective {bits bits' : Nat} (word : bits < 2 ^ 64) (word' : bits' < 2 ^ 64)
    (number : ofBits bits ≠ .notANumber) (same : ofBits bits = ofBits bits') : bits = bits' := by
  have fraction := Nat.mod_lt bits (show 0 < leadingBit by decide)
  have fraction' := Nat.mod_lt bits' (show 0 < leadingBit by decide)
  simp only [ofBits] at number same
  split_ifs at number same <;>
    simp only [ne_eq, reduceCtorEq, not_true_eq_false, infinite.injEq, finite.injEq,
      Int.ofNat_eq_natCast] at number same
  · exact bits_unique word word' same (by omega) (by omega)
  all_goals exact bits_unique word word' same.1 (by omega) (by omega)

/-- There is one binary64 value that is not a number. -/
theorem toBits_of_notANumber {number : Float} (fields : ofFloat number = .notANumber) :
    number.toBits.toBitVec = Float.Model.UnpackedFloat.packedNaN .binary64 := by
  have special : number.toBits.toNat / leadingBit % 2048 = 2047
      ∧ number.toBits.toNat % leadingBit ≠ 0 := by
    simp only [ofFloat, ofBits] at fields
    split at fields
    · next field => exact ⟨field, fun zero => by simp [zero] at fields⟩
    · split at fields <;> cases fields
  rw [leadingBit_eq] at special
  apply number.toModel.valid.eq_packedNaN
  · apply BitVec.eq_of_toNat_eq
    simp only [Float.Model.UnpackedFloat.unpackExponent, BitVec.toNat_cast,
      BitVec.extractLsb_toNat, Nat.shiftRight_eq_div_pow]
    exact special.1
  · intro zero
    have fraction := congrArg BitVec.toNat zero
    simp [Float.Model.UnpackedFloat.unpackMantissa] at fraction
    exact special.2 fraction

/-- Different numbers have different fields. -/
theorem ofFloat_injective : Function.Injective ofFloat := by
  intro number other same
  have pattern : number.toBits = other.toBits := by
    by_cases numeric : ofFloat number = .notANumber
    · apply UInt64.toBitVec_inj.mp
      rw [toBits_of_notANumber numeric, toBits_of_notANumber (same ▸ numeric)]
    · apply UInt64.toNat_inj.mp
      exact ofBits_injective number.toBits.toNat_lt other.toBits.toNat_lt numeric same
  obtain ⟨⟨bits, valid⟩⟩ := number
  obtain ⟨⟨bits', valid'⟩⟩ := other
  obtain rfl : bits = bits' := pattern
  rfl

end Binary64

namespace Layout

/-- The text of fields in plain decimals. -/
def plainFields : Binary64 → List Char
  | .notANumber => ['N', 'a', 'N']
  | .infinite negative => (if negative then ['-'] else []) ++ ['i', 'n', 'f']
  | .finite negative significand exponent => (if negative then ['-'] else [])
    ++ (positionalText "" (Shortest.ofBinary .up significand exponent)).toList

/-- The text of a number in plain decimals is the text of its fields. -/
theorem toList_plain_text (number : Float) :
    (plain.text number).toList = plainFields (Binary64.ofFloat number) := by
  unfold Layout.text
  split
  · next fields => rw [fields]; rfl
  · next negative fields =>
    rw [fields]
    cases negative <;> rfl
  · next negative significand exponent fields =>
    rw [fields]
    cases negative <;> simp [plainFields, plain, magnitudeText]

/-- The text of a finite number is told from other texts by its first characters. -/
theorem finite_of_plainFields_eq {fields : Binary64} {negative : Bool} {significand : Nat}
    {exponent : Int}
    (same : plainFields fields = plainFields (.finite negative significand exponent)) :
    ∃ significand' exponent', fields = .finite negative significand' exponent'
      ∧ positionalText "" (Shortest.ofBinary .up significand' exponent')
        = positionalText "" (Shortest.ofBinary .up significand exponent) := by
  obtain ⟨first, rest, body, digit⟩ :=
    (writes_positionalText (Shortest.ofBinary .up significand exponent)).starts
  have letter (char : Char) (other : char.isDigit = false) : char ≠ first :=
    fun equal => by simp [equal, digit] at other
  have n := letter 'N' (by decide)
  have i := letter 'i' (by decide)
  have minus := letter '-' (by decide)
  cases fields with
  | notANumber => cases negative <;> simp [plainFields, body, n] at same
  | infinite negative' =>
    cases negative <;> cases negative' <;> simp [plainFields, body, i, minus] at same
  | finite negative' significand' exponent' =>
    obtain ⟨first', rest', body', digit'⟩ :=
      (writes_positionalText (Shortest.ofBinary .up significand' exponent')).starts
    have minus' : first' ≠ '-' := fun equal => by simp [equal] at digit'
    have sign : negative' = negative := by
      cases negative <;> cases negative' <;>
        simp [plainFields, body, body', minus, minus'] at same ⊢
    subst sign
    refine ⟨significand', exponent', rfl, String.toList_inj.mp ?_⟩
    exact List.append_cancel_left same

/-- Fields are read back from their text. -/
theorem plainFields_unique {fields fields' : Binary64} (fits : fields.Canonical)
    (fits' : fields'.Canonical) (same : plainFields fields = plainFields fields') :
    fields = fields' := by
  cases fields' with
  | finite negative significand exponent =>
    obtain ⟨significand', exponent', rfl, body⟩ := finite_of_plainFields_eq same
    have values : (Shortest.ofBinary .up significand' exponent').value
        = (Shortest.ofBinary .up significand exponent).value :=
      (body ▸ writes_positionalText _).unique (writes_positionalText _)
    obtain ⟨rfl, rfl⟩ := Shortest.ofBinary_value_injective .up fits fits' values
    rfl
  | notANumber =>
    cases fields with
    | notANumber => rfl
    | infinite negative => cases negative <;> simp [plainFields] at same
    | finite negative significand exponent =>
      obtain ⟨_, _, finite, -⟩ := finite_of_plainFields_eq same.symm
      cases finite
  | infinite negative =>
    cases fields with
    | notANumber => cases negative <;> simp [plainFields] at same
    | infinite negative' => cases negative <;> cases negative' <;> simp [plainFields] at same ⊢
    | finite negative' significand exponent =>
      obtain ⟨_, _, finite, -⟩ := finite_of_plainFields_eq same.symm
      cases finite

/-- Different numbers have different texts in plain decimals. -/
theorem plain_text_injective : Function.Injective plain.text := by
  intro number other same
  have texts := congrArg String.toList same
  rw [toList_plain_text, toList_plain_text] at texts
  exact Binary64.ofFloat_injective (plainFields_unique (Binary64.canonical_ofFloat number)
    (Binary64.canonical_ofFloat other) texts)

/-- The characters that a number in plain decimals may have: letters, digits, the point and
the minus sign. -/
def isPlain (char : Char) : Bool :=
  char.isAlphanum || char == '.' || char == '-'

/-- Numbers in plain decimals have no other characters. -/
theorem isPlain_of_mem_text {number : Float} :
    ∀ char ∈ (plain.text number).toList, isPlain char = true := by
  rw [toList_plain_text]
  have sign (negative : Bool) : ∀ char ∈ (if negative then ['-'] else []), isPlain char = true := by
    cases negative <;> exact List.all_eq_true.mp (by decide)
  cases Binary64.ofFloat number with
  | notANumber => exact List.all_eq_true.mp (by decide)
  | infinite negative => cases negative <;> exact List.all_eq_true.mp (by decide)
  | finite negative significand exponent =>
    intro char member
    rcases List.mem_append.mp member with before | later
    · exact sign negative char before
    · rcases (writes_positionalText _).chars char later with digit | rfl
      · simp [isPlain, Char.isAlphanum, digit]
      · decide

end Layout

end Nonlocal.Decimal
