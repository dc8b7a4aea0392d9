import Mathlib.Data.Nat.Digits.Defs
import Nonlocal.Proofs.Decimal.Closest
import Nonlocal.Proofs.Source.Language

/-!
# The numbers that cells write

A numeral writes a rational number by the places of its digits before and after the point, and
a quotient the one of its two counts. A literal has this number over the rationals. Over
binary64 numbers a numeral is rounded once, with its sign, to the nearest one; of a quotient
both counts are rounded first, and then the quotient of what they are rounded to.
-/

namespace Nonlocal.Source.Language

open Decimal (Closest Nearest)

/-- The count that digits write: the last one counts units, the one before it tens. -/
def count (digits : List Char) : Nat :=
  Nat.ofDigits 10 (digits.reverse.map Decimal.digitValue)

/-- The digits after the point. -/
def Numeral.fraction (numeral : Numeral) : List Char := numeral.fraction?.getD []

/-- The number that a numeral writes behind its sign. -/
def Numeral.magnitude (numeral : Numeral) : ℚ :=
  count numeral.whole + count numeral.fraction / 10 ^ numeral.fraction.length

/-- The number that a cell writes. -/
def Cell.number : Cell → ℚ
  | .decimal numeral => if numeral.negative then -numeral.magnitude else numeral.magnitude
  | .quotient numerator denominator => count numerator.chars / count denominator.chars

/-- What the number that a cell writes is rounded to. -/
def Cell.RoundsTo : Cell → Float → Prop
  | .decimal numeral, number => Nearest numeral.negative numeral.magnitude number
  | .quotient numerator denominator, number =>
    ∃ above exponent below exponent', Closest (count numerator.chars) above exponent
      ∧ Closest (count denominator.chars) below exponent'
      ∧ Nearest false (above * 2 ^ exponent / (below * 2 ^ exponent')) number

/-- Digits are read as the count that they write. -/
theorem ofDigits_eq_count (digits : List Char) : Decimal.ofDigits digits = count digits := by
  rw [count, Nat.ofDigits_eq_foldr, List.foldr_map, List.foldr_reverse, Decimal.ofDigits]
  congr 1
  funext value digit
  simp only [Nat.cast_id]
  ring

/-- Digits after others leave these as many places further up. -/
theorem count_append (digits more : List Char) :
    count (digits ++ more) = count digits * 10 ^ more.length + count more := by
  rw [count, List.reverse_append, List.map_append, Nat.ofDigits_append, List.length_map,
    List.length_reverse, count, count]
  ring

/-- All digits of a numeral count units of the last place. -/
theorem Numeral.magnitude_eq (numeral : Numeral) : numeral.magnitude
    = Decimal.ofDigits (numeral.whole ++ numeral.fraction) / 10 ^ numeral.fraction.length := by
  rw [ofDigits_eq_count, count_append, magnitude]
  push_cast
  rw [add_div, mul_div_cancel_right₀ _ (by positivity)]

/-- A numeral writes no less than 0 behind its sign. -/
theorem Numeral.magnitude_nonneg (numeral : Numeral) : 0 ≤ numeral.magnitude := by
  rw [magnitude]
  positivity

/-- A cell is rounded to one number. -/
theorem Cell.RoundsTo.unique {cell : Cell} {number number' : Float} (rounds : cell.RoundsTo number)
    (rounds' : cell.RoundsTo number') : number = number' := by
  cases cell with
  | decimal numeral => exact Nearest.unique numeral.magnitude_nonneg rounds rounds'
  | quotient numerator denominator =>
    obtain ⟨above, exponent, below, exponent', closest, closest', nearest⟩ := rounds
    obtain ⟨above', _, below', _, again, again', nearest'⟩ := rounds'
    obtain ⟨rfl, rfl⟩ := closest.unique (Nat.cast_nonneg _) again
    obtain ⟨rfl, rfl⟩ := closest'.unique (Nat.cast_nonneg _) again'
    exact nearest.unique (by positivity) nearest'

section Literals

variable {cell : Cell} {literal : Literal} {numerator denominator : Digits}

/-- The word that digits write is their count. -/
theorem Digits.word?_eq_some {digits : Digits} {word : Nat} (written : digits.word? = some word) :
    word = count digits.chars ∧ word < Word.limit := by
  rw [word?, Word.check?, ofDigits_eq_count] at written
  split at written
  · next fits =>
    obtain rfl := Option.some.inj written
    exact ⟨rfl, fits⟩
  · cases written

/-- A quotient that can be used writes two words, of which the second is not 0. -/
theorem Cell.literal?_quotient
    (written : (Cell.quotient numerator denominator).literal? = some literal) :
    literal = .fraction (count numerator.chars) (count denominator.chars)
      ∧ count numerator.chars < Word.limit ∧ count denominator.chars < Word.limit
      ∧ count denominator.chars ≠ 0 := by
  simp only [literal?, Option.bind_eq_bind, Option.bind_eq_some_iff] at written
  obtain ⟨above, isAbove, below, isBelow, same⟩ := written
  obtain ⟨rfl, fits⟩ := Digits.word?_eq_some isAbove
  obtain ⟨rfl, fits'⟩ := Digits.word?_eq_some isBelow
  split at same
  · cases same
  · next some => exact ⟨(Option.some.inj same).symm, fits, fits', some⟩

/-- Over the rationals a literal has the number that its cell writes. -/
theorem Cell.value_eq_number (written : cell.literal? = some literal) :
    (literal.value : ℚ) = cell.number := by
  cases cell with
  | decimal numeral =>
    obtain rfl := Option.some.inj written
    simp only [Literal.value, Scalar.ofDecimal, number, numeral.magnitude_eq, Nat.pow_eq,
      Nat.cast_pow, Nat.cast_ofNat]
    rfl
  | quotient numerator denominator =>
    obtain ⟨rfl, -⟩ := literal?_quotient written
    rfl

/-- A word is rounded to a number in range, which is 0 only if the word is. -/
theorem exists_rounded_word {word : Nat} (fits : word < Word.limit) :
    ∃ significand exponent, Closest word significand exponent
      ∧ Decimal.Binary64.ofFloat (Float.ofNat word) = .finite false significand exponent
      ∧ (word ≠ 0 → 0 < significand) := by
  have inRange : (word : ℚ) < (2 ^ 53 - 1 / 2) * 2 ^ (971 : Int) :=
    calc (word : ℚ) < 2 ^ (64 : Int) := by exact_mod_cast fits
      _ ≤ 2 ^ (971 : Int) := zpow_le_zpow_right₀ one_le_two (by decide)
      _ ≤ (2 ^ 53 - 1 / 2) * 2 ^ (971 : Int) :=
        le_mul_of_one_le_left (by positivity) (by norm_num)
  obtain ⟨significand, exponent, canonical, -, inside, fields⟩ :=
    (Decimal.rounds_ofNat word).finite inRange
  refine ⟨significand, exponent, .of_contains canonical (Nat.cast_nonneg _) inside, fields, ?_⟩
  intro some
  have large : (1 : ℚ) ≤ word := by exact_mod_cast Nat.one_le_iff_ne_zero.mpr some
  exact lt_of_lt_of_le (by decide) (Decimal.leading_of_contains canonical inside large)

/-- Over binary64 numbers a literal has the number that its cell is rounded to. -/
theorem Cell.roundsTo_value (written : cell.literal? = some literal) :
    cell.RoundsTo literal.value := by
  cases cell with
  | decimal numeral =>
    obtain rfl := Option.some.inj written
    rw [RoundsTo, numeral.magnitude_eq]
    exact Decimal.nearest_nearestFloat _ _ _
  | quotient numerator denominator =>
    obtain ⟨rfl, fits, fits', some⟩ := literal?_quotient written
    obtain ⟨above, exponent, closest, fields, -⟩ := exists_rounded_word fits
    obtain ⟨below, exponent', closest', fields', positive⟩ := exists_rounded_word fits'
    have rounds := Decimal.rounds_div (positive some) fields fields'
    exact ⟨above, exponent, below, exponent', closest, closest', rounds.nearest (by positivity)⟩

end Literals

section Rows

variable {rows : List (List Cell)} {literals : List (List Literal)}

/-- The elements of a list that can all be used give the results at their places. -/
theorem forall₂_of_mapM {α β : Type} {use? : α → Option β} {elements : List α} {results : List β}
    (used : elements.mapM use? = some results) :
    List.Forall₂ (fun element result => use? element = some result) elements results := by
  induction elements generalizing results with
  | nil =>
    obtain rfl := Option.some.inj used
    exact .nil
  | cons element rest inductionHypothesis =>
    simp only [List.mapM_cons, Option.bind_eq_bind, Option.bind_eq_some_iff, Option.pure_def,
      Option.some.injEq] at used
    obtain ⟨result, isResult, others, areOthers, rfl⟩ := used
    exact .cons isResult (inductionHypothesis areOthers)

/-- A relation between a cell and the value of its literal holds at all places of rows. -/
theorem forall₂_value {α : Type} [Div α] [Scalar α] {relation : Cell → α → Prop}
    (each : ∀ {cell literal}, cell.literal? = some literal → relation cell literal.value)
    (written : rows.mapM (·.mapM Cell.literal?) = some literals) :
    List.Forall₂ (List.Forall₂ relation) rows (literals.map (·.map Literal.value)) := by
  rw [List.forall₂_map_right_iff]
  refine (forall₂_of_mapM written).imp fun cells values isRow => ?_
  rw [List.forall₂_map_right_iff]
  exact (forall₂_of_mapM isRow).imp fun cell literal isLiteral => each isLiteral

/-- Over the rationals the literals of rows have the numbers that the cells write. -/
theorem rows_exact (written : rows.mapM (·.mapM Cell.literal?) = some literals) :
    rows.map (·.map Cell.number) = literals.map (·.map Literal.value) := by
  have same : List.Forall₂ (List.Forall₂ fun (cell : Cell) (value : ℚ) => cell.number = value)
      rows (literals.map (·.map Literal.value)) :=
    forall₂_value (fun isLiteral => (Cell.value_eq_number isLiteral).symm) written
  rw [← List.forall₂_eq_eq_eq, List.forall₂_map_left_iff]
  refine same.imp fun cells values isRow => ?_
  rw [← List.forall₂_eq_eq_eq, List.forall₂_map_left_iff]
  exact isRow

/-- Over binary64 numbers they have the numbers that the cells are rounded to. -/
theorem rows_rounded (written : rows.mapM (·.mapM Cell.literal?) = some literals) :
    List.Forall₂ (List.Forall₂ Cell.RoundsTo) rows (literals.map (·.map Literal.value)) :=
  forall₂_value Cell.roundsTo_value written

/-- Rows are rounded to one matrix. -/
theorem rounded_unique {matrix matrix' : List (List Float)}
    (rounds : List.Forall₂ (List.Forall₂ Cell.RoundsTo) rows matrix)
    (rounds' : List.Forall₂ (List.Forall₂ Cell.RoundsTo) rows matrix') : matrix = matrix' := by
  have one : Relator.RightUnique Cell.RoundsTo := fun _ _ _ => Cell.RoundsTo.unique
  exact one.forall₂.forall₂ rounds rounds'

end Rows

end Nonlocal.Source.Language
