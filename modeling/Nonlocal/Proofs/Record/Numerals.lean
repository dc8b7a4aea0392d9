import Nonlocal.Proofs.Decimal.Plain
import Nonlocal.Proofs.Record.Cursor
import Nonlocal.Record.Reader

/-!
# Numerals are read back

A numeral is a row of digits, then possibly a point with digits and possibly an exponent
with digits. Each part is read back from its text if what follows is no digit, no point
and no exponent letter, and a comma or a bracket is none of these.
-/

namespace Nonlocal.Record

/-- The fraction of a numeral as it is written. -/
def fractionText : Option (List Char) → List Char
  | none => []
  | some digits => '.' :: digits

/-- The exponent of a numeral as it is written, with its sign. -/
def exponentText : Option (Bool × List Char) → List Char
  | none => []
  | some (isNegative, digits) => 'e' :: (if isNegative then '-' else '+') :: digits

/-- A numeral as it is written, without its sign. -/
def Numeral.unsignedText (numeral : Numeral) : List Char :=
  numeral.whole ++ fractionText numeral.fraction ++ exponentText numeral.exponent

/-- A numeral as it is written. -/
def Numeral.text (numeral : Numeral) : List Char :=
  (if numeral.isNegative then ['-'] else []) ++ numeral.unsignedText

/-- A row of at least one digit. -/
structure IsDigits (text : List Char) : Prop where
  nonempty : text ≠ []
  all : ∀ char ∈ text, char.isDigit = true

/-- The parts of a numeral are rows of digits, and the digits before the point start with
a zero only if there is no other. -/
structure Numeral.WellFormed (numeral : Numeral) : Prop where
  whole : IsDigits numeral.whole
  noLeadingZero : ∀ later, numeral.whole = '0' :: later → later = []
  fraction : ∀ digits, numeral.fraction = some digits → IsDigits digits
  exponent : ∀ isNegative digits, numeral.exponent = some (isNegative, digits) → IsDigits digits

/-- A text that does not start with a digit. -/
def NoDigit (text : List Char) : Prop := ∀ first later, text = first :: later →
  first.isDigit = false

variable {digits rest : List Char} (atEnd : Failure)

/-- A text whose first character is known to be no digit does not start with one. -/
theorem noDigit_cons {first : Char} (other : first.isDigit = false) : NoDigit (first :: rest) := by
  rintro _ _ same
  obtain ⟨rfl, -⟩ := List.cons.inj same
  exact other

/-- What follows a value is no digit and no point. -/
theorem Delimited.noDigit (delimited : Delimited rest) :
    NoDigit rest ∧ ∀ later, rest ≠ '.' :: later := by
  obtain ⟨first, later, rfl, comma | bracket | brace⟩ := delimited
  all_goals
    subst first
    exact ⟨noDigit_cons (by decide), by simp⟩

/-- What follows a fraction is no digit and no point. -/
theorem Delimited.noDigit_exponent (delimited : Delimited rest)
    (exponent : Option (Bool × List Char)) :
    NoDigit (exponentText exponent ++ rest)
      ∧ ∀ later, exponentText exponent ++ rest ≠ '.' :: later := by
  cases exponent with
  | none => exact delimited.noDigit
  | some power => exact ⟨noDigit_cons (by decide), by simp [exponentText]⟩

/-- What follows the digits before the point is no digit. -/
theorem Delimited.noDigit_fraction (delimited : Delimited rest)
    (fraction : Option (List Char)) (exponent : Option (Bool × List Char)) :
    NoDigit (fractionText fraction ++ (exponentText exponent ++ rest)) := by
  cases fraction with
  | none => exact (delimited.noDigit_exponent exponent).1
  | some digits => exact noDigit_cons (by decide)

/-- A row of digits is taken up to its end. -/
theorem takeWhile_digits (all : ∀ char ∈ digits, char.isDigit = true) (ended : NoDigit rest) :
    (digits ++ rest).takeWhile Char.isDigit = digits
      ∧ (digits ++ rest).dropWhile Char.isDigit = rest := by
  rw [List.takeWhile_append_of_pos all, List.dropWhile_append_of_pos all]
  cases rest with
  | nil => simp
  | cons first later =>
    have other : ¬first.isDigit = true := by simp [ended first later rfl]
    rw [List.takeWhile_cons_of_neg other, List.dropWhile_cons_of_neg other, List.append_nil]
    exact ⟨rfl, rfl⟩

/-- Digits are read back. -/
theorem readDigits_append (isDigits : IsDigits digits) (ended : NoDigit rest) :
    Gives (readDigits atEnd (digits ++ rest)) digits rest := by
  obtain ⟨first, later, rfl⟩ := List.exists_cons_of_ne_nil isDigits.nonempty
  have digit : first.isDigit = true := isDigits.all first List.mem_cons_self
  obtain ⟨taken, left⟩ := takeWhile_digits
    (fun char member => isDigits.all char (List.mem_cons_of_mem first member)) ended
  refine ⟨by simp only [List.length_append, List.length_cons]; omega, ?_⟩
  simp only [readDigits, List.cons_append, digit, if_true, taken, Tail.dropWhile, Tail.after, left]

/-- The digits before the point are read back. -/
theorem readWhole_append (isDigits : IsDigits digits)
    (noLeadingZero : ∀ later, digits = '0' :: later → later = []) (ended : NoDigit rest) :
    Gives (readWhole atEnd (digits ++ rest)) digits rest := by
  obtain ⟨first, later, rfl⟩ := List.exists_cons_of_ne_nil isDigits.nonempty
  by_cases zero : first = '0'
  · subst zero
    obtain rfl := noLeadingZero later rfl
    have other : (rest.head?.map Char.isDigit).getD false = false := by
      cases rest with
      | nil => rfl
      | cons first later => exact ended first later rfl
    exact ⟨by simp, by simp only [readWhole, List.cons_append, List.nil_append, other]; rfl⟩
  · have unread : readWhole atEnd (first :: later ++ rest)
        = readDigits atEnd (first :: later ++ rest) := by
      rw [List.cons_append, readWhole]
      exact fun _ same => zero (List.cons.inj same).1
    exact unread ▸ readDigits_append atEnd isDigits ended

/-- A fraction is read back. -/
theorem readFraction_append {fraction : Option (List Char)}
    (isDigits : ∀ digits, fraction = some digits → IsDigits digits) (ended : NoDigit rest)
    (noPoint : ∀ later, rest ≠ '.' :: later) :
    ∃ isTail, readFraction atEnd (fractionText fraction ++ rest)
      = .ok (fraction, ⟨rest, isTail⟩) := by
  cases fraction with
  | none =>
    refine ⟨length_le_self rest, ?_⟩
    change readFraction atEnd rest = _
    rw [readFraction]
    · rfl
    · exact noPoint
  | some digits =>
    obtain ⟨shorter, read⟩ := readDigits_append atEnd (isDigits digits rfl) ended
    refine ⟨by simp [fractionText]; omega, ?_⟩
    simp only [readFraction, fractionText, List.cons_append, read]
    rfl

/-- The digits of an exponent are read back. -/
theorem readPower_append {isNegative : Bool} {whole : List Char} (isDigits : IsDigits digits)
    (ended : NoDigit rest) (isTail : (digits ++ rest).length ≤ whole.length) :
    ∃ isTail', readPower atEnd isNegative (⟨digits ++ rest, isTail⟩ : Tail whole)
      = .ok (some (isNegative, digits), ⟨rest, isTail'⟩) := by
  obtain ⟨shorter, read⟩ := readDigits_append atEnd isDigits ended
  refine ⟨by simp at isTail; omega, ?_⟩
  simp only [readPower, read]
  rfl

/-- An exponent is read back. -/
theorem readExponent_append {exponent : Option (Bool × List Char)}
    (isDigits : ∀ isNegative digits, exponent = some (isNegative, digits) → IsDigits digits)
    (delimited : Delimited rest) :
    ∃ isTail, readExponent atEnd (exponentText exponent ++ rest)
      = .ok (exponent, ⟨rest, isTail⟩) := by
  cases exponent with
  | none =>
    refine ⟨length_le_self rest, ?_⟩
    obtain ⟨first, later, rfl, comma | bracket | brace⟩ := delimited <;> subst first <;> rfl
  | some power =>
    obtain ⟨isNegative, digits⟩ := power
    have power := isDigits isNegative digits rfl
    cases isNegative with
    | true => exact readPower_append atEnd power delimited.noDigit.1 _
    | false => exact readPower_append atEnd power delimited.noDigit.1 _

/-- A numeral without its sign starts with a digit. -/
theorem Numeral.WellFormed.opens {numeral : Numeral} (wellFormed : numeral.WellFormed) :
    ∃ first later, numeral.unsignedText = first :: later ∧ first.isDigit = true := by
  obtain ⟨first, later, digits⟩ := List.exists_cons_of_ne_nil wellFormed.whole.nonempty
  exact ⟨first, later ++ fractionText numeral.fraction ++ exponentText numeral.exponent,
    by simp [unsignedText, digits], wellFormed.whole.all first (by simp [digits])⟩

/-- A numeral is read back after its sign. -/
theorem readUnsigned_append {numeral : Numeral} (wellFormed : numeral.WellFormed)
    (delimited : Delimited rest) :
    Gives (readUnsigned atEnd numeral.isNegative (numeral.unsignedText ++ rest)) numeral rest := by
  obtain ⟨afterFraction, noPoint⟩ := delimited.noDigit_exponent numeral.exponent
  have afterWhole := delimited.noDigit_fraction numeral.fraction numeral.exponent
  obtain ⟨wholeShorter, wholeRead⟩ :=
    readWhole_append atEnd wellFormed.whole wellFormed.noLeadingZero afterWhole
  obtain ⟨fractionTail, fractionRead⟩ :=
    readFraction_append atEnd wellFormed.fraction afterFraction noPoint
  obtain ⟨exponentTail, exponentRead⟩ :=
    readExponent_append atEnd wellFormed.exponent delimited
  rw [Numeral.unsignedText, List.append_assoc, List.append_assoc]
  refine ⟨by omega, ?_⟩
  simp only [readUnsigned, wholeRead, fractionRead, exponentRead]
  rfl

/-- A numeral is read back. -/
theorem readNumeral_append {numeral : Numeral} (wellFormed : numeral.WellFormed)
    (delimited : Delimited rest) :
    Gives (readNumeral atEnd (numeral.text ++ rest)) numeral rest := by
  obtain ⟨shorter, read⟩ := readUnsigned_append atEnd wellFormed delimited
  cases sign : numeral.isNegative with
  | true =>
    rw [sign] at read
    rw [Numeral.text, sign, if_pos rfl]
    refine ⟨Nat.lt_succ_of_lt shorter, ?_⟩
    simp only [readNumeral, List.cons_append, List.nil_append, read]
    rfl
  | false =>
    rw [sign] at read
    rw [Numeral.text, sign, if_neg Bool.false_ne_true, List.nil_append]
    refine ⟨shorter, ?_⟩
    rw [readNumeral, read]
    obtain ⟨first, later, opens, digit⟩ := wellFormed.opens
    rintro _ same
    rw [opens, List.cons_append] at same
    obtain ⟨rfl, -⟩ := List.cons.inj same
    exact absurd digit (by decide)

section Numbers

variable {numeral : Numeral} {number : Number}

/-- A numeral starts with a digit or a minus sign. -/
theorem Numeral.WellFormed.starts (wellFormed : numeral.WellFormed) :
    ∃ first later, numeral.text = first :: later ∧ (first = '-' ∨ first.isDigit = true) := by
  obtain ⟨first, later, opens, digit⟩ := wellFormed.opens
  cases sign : numeral.isNegative with
  | true => exact ⟨'-', numeral.unsignedText, by simp [text, sign], .inl rfl⟩
  | false => exact ⟨first, later, by simp [text, sign, opens], .inr digit⟩

/-- What numerals start with is no blank, and it does not end a list. -/
theorem shown_of_starts {first : Char} (starts : first = '-' ∨ first.isDigit = true) :
    isBlank first = false ∧ first ≠ ']' := by
  obtain rfl | digit := starts
  · decide
  · constructor
    · simp only [isBlank, Bool.or_eq_false_iff, decide_eq_false_iff_not]
      refine ⟨⟨⟨?_, ?_⟩, ?_⟩, ?_⟩ <;> exact fun same => absurd (same ▸ digit) (by decide)
    · exact fun same => absurd (same ▸ digit) (by decide)

/-- A number that is in range is read back. -/
theorem readAnyNumber_append (wanted : Wanted) (wellFormed : numeral.WellFormed)
    (inRange : numeral.number? = some number) (delimited : Delimited rest) :
    Gives (readAnyNumber wanted (numeral.text ++ rest)) number rest := by
  have gives := readNumeral_append .truncated wellFormed delimited
  obtain ⟨first, later, text, starts⟩ := wellFormed.starts
  have numeric : (first = '-' || first.isDigit) = true := by simpa using starts
  rw [text, List.cons_append] at gives ⊢
  obtain ⟨shorter, read⟩ := gives
  refine ⟨shorter, ?_⟩
  simp only [readAnyNumber, skipBlanks_cons (shown_of_starts starts).1, Tail.whole, numeric,
    if_true, readNumber, read, inRange]
  rfl

end Numbers

section Counts

/-- The digits of a count. -/
theorem isDigits_toDigits (count : Nat) : IsDigits (Nat.toDigits 10 count) :=
  ⟨Nat.toDigits_ne_nil, Decimal.isDigit_toDigits count⟩

/-- A count is written without a leading zero. -/
theorem toDigits_noLeadingZero (count : Nat) :
    ∀ later, Nat.toDigits 10 count = '0' :: later → later = [] := by
  induction count using Nat.strongRecOn with
  | ind count ih =>
    intro later zero
    by_cases small : count < 10
    · rw [Nat.toDigits_of_lt_base small] at zero
      exact (List.cons.inj zero).2.symm
    · rw [Nat.toDigits_of_base_le (by decide) (not_lt.mp small)] at zero
      obtain ⟨first, before, tens⟩ :=
        List.exists_cons_of_ne_nil (@Nat.toDigits_ne_nil (count / 10) 10)
      rw [tens, List.cons_append] at zero
      obtain ⟨rfl, -⟩ := List.cons.inj zero
      obtain rfl := ih (count / 10) (by omega) before tens
      have none : count / 10 = 0 := Decimal.toDigits_injective tens
      omega

/-- The numeral of a count. -/
def countNumeral (count : Nat) : Numeral := ⟨false, Nat.toDigits 10 count, none, none⟩

/-- The numeral of a count is well-formed. -/
theorem countNumeral_wellFormed (count : Nat) : (countNumeral count).WellFormed where
  whole := isDigits_toDigits count
  noLeadingZero := toDigits_noLeadingZero count
  fraction := by simp [countNumeral]
  exponent := by simp [countNumeral]

/-- The text of a count. -/
theorem countNumeral_text (count : Nat) :
    (countNumeral count).text = (toString count).toList := by
  simp [Numeral.text, Numeral.unsignedText, countNumeral, fractionText, exponentText]

/-- The numeral of a count that is a word is the count. -/
theorem countNumeral_number? {count : Nat} (word : count < Word.limit) :
    (countNumeral count).number? = some (.natural count) := by
  simp [Numeral.number?, countNumeral, Identifier.ofDigits_toDigits, word]

/-- A count that is a word is read back. -/
theorem readCount_append {count : Nat} (word : count < Word.limit) (delimited : Delimited rest) :
    Gives (readCount ((toString count).toList ++ rest)) count rest := by
  have gives := readAnyNumber_append .count
    (countNumeral_wellFormed count) (countNumeral_number? word) delimited
  rw [countNumeral_text] at gives
  obtain ⟨shorter, read⟩ := gives
  exact ⟨shorter, by simp only [readCount, read]⟩

end Counts

end Nonlocal.Record
