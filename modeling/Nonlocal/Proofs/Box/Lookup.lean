import Mathlib.Data.List.Forall2
import Nonlocal.Model.Disclosure
import Nonlocal.Proofs.Attempt
import Nonlocal.Proofs.Tuple.Index

/-!
# Every cell of a shaped box is found

A box has its shape if there are parties, as many outputs as inputs, ranges with
values in them, one row per input tuple and one cell per output tuple. In such a
box a lookup with fitting tuples finds a cell, and along the walk over the output
tuples the lookups read off a row from left to right. A box lacks no precondition
of a model exactly if it has its shape and few enough parties.
-/

namespace Nonlocal.Box

variable {α : Type}

/-- The shape that the matrix and the lists of a box have to have. -/
structure Shaped (box : Box α) : Prop where
  balanced : box.outputs.length = box.partyCount
  inhabited : 0 < box.partyCount
  inputRanged : 0 < box.inputRange
  outputRanged : 0 < box.outputRange
  rows : box.matrix.length = Tuple.total box.inputRange box.partyCount
  columns : ∀ row ∈ box.matrix, row.length = Tuple.total box.outputRange box.partyCount
  rowWords : Tuple.total box.inputRange box.partyCount < Word.limit
  columnWords : Tuple.total box.outputRange box.partyCount < Word.limit

/-- A box that can be held in memory: the length of a list is at most the greatest
signed word. -/
structure Storable (box : Box α) : Prop where
  rows : box.matrix.length ≤ Word.greatestSigned
  columns : ∀ row ∈ box.matrix, row.length ≤ Word.greatestSigned

/-- A storable box can be told by counting its cells. -/
instance (box : Box α) : Decidable box.Storable :=
  decidable_of_iff
    (box.matrix.length ≤ Word.greatestSigned
      ∧ ∀ row ∈ box.matrix, row.length ≤ Word.greatestSigned)
    ⟨fun ⟨rows, columns⟩ => ⟨rows, columns⟩, fun ⟨rows, columns⟩ => ⟨rows, columns⟩⟩

/-- A storable matrix that has a row for each input tuple and a cell for each output tuple
gives its box a shape, if there are tuples on both sides. -/
theorem Storable.shaped {box : Box α} (storable : box.Storable)
    (balanced : box.outputs.length = box.partyCount)
    (rows : box.matrix.length = Tuple.total box.inputRange box.partyCount)
    (columns : ∀ row ∈ box.matrix, row.length = Tuple.total box.outputRange box.partyCount)
    (inhabited : 0 < box.partyCount) (inputRanged : 0 < box.inputRange)
    (outputRanged : 0 < box.outputRange) : box.Shaped := by
  have nonempty : 0 < box.matrix.length := by
    rw [rows]
    exact Nat.pow_pos inputRanged
  have member : box.matrix[0] ∈ box.matrix := List.getElem_mem nonempty
  have words : Word.greatestSigned < Word.limit := by decide
  exact {
    balanced, inhabited, inputRanged, outputRanged, rows, columns
    rowWords := rows ▸ storable.rows.trans_lt words
    columnWords := columns _ member ▸ (storable.columns _ member).trans_lt words }

/-- Two parties whose answers differ exactly if both are asked with 1. Either answer of
a single party is as likely as the other, whatever the inputs are. -/
def correlated (zero half : α) : Box α where
  inputs := ["x", "y"]
  outputs := ["a", "b"]
  inputRange := 2
  outputRange := 2
  matrix := [
    [half, zero, zero, half],
    [half, zero, zero, half],
    [half, zero, zero, half],
    [zero, half, half, zero]]

/-- The probability of an output tuple given an input tuple, 0 where none is found. -/
def likelihood (box : Box Rat) (input output : List Nat) : Rat :=
  (box.prob input output).toOption.getD 0

/-- A lookup that succeeds finds a cell of the matrix. -/
theorem exists_cell_of_prob {box : Box α} {input output : List Nat} {value : α}
    (found : box.prob input output = .ok value) : ∃ row ∈ box.matrix, value ∈ row := by
  unfold prob at found
  split at found
  · cases found
  · split at found
    · cases found
    · split at found
      · next atCell =>
        obtain rfl := Except.ok.inj found
        obtain ⟨row, stored, inRow⟩ := Option.bind_eq_some_iff.mp atCell
        exact ⟨row, List.mem_of_getElem? stored, List.mem_of_getElem? inRow⟩
      · cases found

/-- Likelihoods are not negative if no cell is. -/
theorem likelihood_nonneg {box : Box Rat}
    (nonnegative : ∀ row ∈ box.matrix, ∀ cell ∈ row, 0 ≤ cell)
    (input output : List Nat) : 0 ≤ box.likelihood input output := by
  cases found : box.prob input output with
  | error => simp [likelihood, found, Except.toOption]
  | ok value =>
    obtain ⟨row, rowMember, member⟩ := exists_cell_of_prob found
    simpa [likelihood, found, Except.toOption] using nonnegative row rowMember value member

/-- For few parties the comparison of the matrix with the ranges succeeds exactly if both numbers
of tuples are words and the matrix has as many rows and columns. -/
theorem isShaped_iff {box : Box α} (few : box.partyCount ≤ PartySet.maxParties) :
    Disclosure.isShaped box = true
      ↔ Tuple.total box.inputRange box.partyCount < Word.limit
        ∧ Tuple.total box.outputRange box.partyCount < Word.limit
        ∧ box.matrix.length = Tuple.total box.inputRange box.partyCount
        ∧ ∀ row ∈ box.matrix, row.length = Tuple.total box.outputRange box.partyCount := by
  constructor
  · intro shaped
    unfold Disclosure.isShaped at shaped
    split at shaped
    · next rows columns rowsCounted columnsCounted =>
      obtain ⟨rfl, rowWords⟩ := Tuple.count?_eq_some rowsCounted
      obtain ⟨rfl, columnWords⟩ := Tuple.count?_eq_some columnsCounted
      simp only [Bool.and_eq_true, beq_iff_eq, List.all_eq_true] at shaped
      exact ⟨rowWords, columnWords, shaped⟩
    · cases shaped
  · rintro ⟨rowWords, columnWords, sized⟩
    have short : box.partyCount < Tuple.lengthLimit := few.trans_lt (by decide)
    rw [Disclosure.isShaped, Tuple.count?_of_lt short rowWords,
      Tuple.count?_of_lt short columnWords]
    simpa only [Bool.and_eq_true, beq_iff_eq, List.all_eq_true] using sized

/-- The comparison of the matrix with the ranges succeeds for few parties. -/
theorem Shaped.isShaped {box : Box α} (shaped : box.Shaped)
    (few : box.partyCount ≤ PartySet.maxParties) : Disclosure.isShaped box = true :=
  (isShaped_iff few).mpr ⟨shaped.rowWords, shaped.columnWords, shaped.rows, shaped.columns⟩

/-- A box that lacks no precondition is shaped. -/
theorem shaped_of_lacking? {box : Box α} (complete : Disclosure.lacking? box = none) :
    box.Shaped := by
  simp only [Disclosure.lacking?] at complete
  split at complete
  · cases complete
  next balanced =>
  split at complete
  · cases complete
  next inhabited =>
  split at complete
  · cases complete
  next few =>
  split at complete
  · cases complete
  next ranged =>
  split at complete
  · cases complete
  next counted =>
  obtain ⟨rowWords, columnWords, rows, columns⟩ :=
    (isShaped_iff (Nat.le_of_not_lt few)).mp (by simpa using counted)
  exact {
    balanced := by omega
    inhabited := by omega
    inputRanged := by omega
    outputRanged := by omega
    rows := rows
    columns := columns
    rowWords := rowWords
    columnWords := columnWords }

/-- A box that lacks no precondition has few parties. -/
theorem few_of_lacking? {box : Box α} (complete : Disclosure.lacking? box = none) :
    box.partyCount ≤ PartySet.maxParties := by
  by_contra many
  have balanced := (shaped_of_lacking? complete).balanced
  have inhabited := (shaped_of_lacking? complete).inhabited
  simp only [Disclosure.lacking?] at complete
  rw [if_neg (by omega), if_neg (by omega), if_pos (by omega)] at complete
  cases complete

/-- A shaped box lacks nothing but few enough parties. -/
theorem Shaped.lacking?_eq {box : Box α} (shaped : box.Shaped) :
    Disclosure.lacking? box
      = if box.partyCount ≤ PartySet.maxParties then none
        else some (.fewEnough box.partyCount) := by
  have balanced := shaped.balanced
  have inhabited := shaped.inhabited
  have inputRanged := shaped.inputRanged
  have outputRanged := shaped.outputRanged
  simp only [Disclosure.lacking?]
  rw [if_neg (by omega), if_neg (by omega)]
  by_cases few : box.partyCount ≤ PartySet.maxParties
  · rw [if_neg (by omega), if_neg (by omega), if_neg (by simp [shaped.isShaped few]), if_pos few]
  · rw [if_pos (by omega), if_neg few]

namespace Shaped

variable {box : Box α}

/-- Each range fits the number of tuples of its side. -/
theorem range_le_total (shaped : box.Shaped) (radix : Nat) :
    radix ≤ Tuple.total radix box.partyCount :=
  Nat.le_self_pow (Nat.ne_of_gt shaped.inhabited) radix

/-- There is a row. -/
theorem exists_row (shaped : box.Shaped) : ∃ row, row ∈ box.matrix := by
  have positive : 0 < box.matrix.length := by
    rw [shaped.rows]
    exact Nat.pow_pos shaped.inputRanged
  exact ⟨box.matrix[0], List.getElem_mem positive⟩

/-- The input values of a storable box are signed words. -/
theorem inputRange_le (shaped : box.Shaped) (storable : box.Storable) :
    box.inputRange ≤ Word.greatestSigned := by
  have within := shaped.range_le_total box.inputRange
  have bound := storable.rows
  rw [shaped.rows] at bound
  omega

/-- The output values of a storable box are signed words. -/
theorem outputRange_le (shaped : box.Shaped) (storable : box.Storable) :
    box.outputRange ≤ Word.greatestSigned := by
  obtain ⟨row, member⟩ := shaped.exists_row
  have within := shaped.range_le_total box.outputRange
  have bound := storable.columns row member
  rw [shaped.columns row member] at bound
  omega

/-- A party of the box has an input. -/
theorem exists_input (_ : box.Shaped) {party : Nat} (present : party < box.partyCount) :
    ∃ input, box.inputs[party]? = some input :=
  ⟨box.inputs[party], List.getElem?_eq_getElem present⟩

/-- A party of the box has an output. -/
theorem exists_output (shaped : box.Shaped) {party : Nat} (present : party < box.partyCount) :
    ∃ output, box.outputs[party]? = some output := by
  rw [← shaped.balanced] at present
  exact ⟨box.outputs[party], List.getElem?_eq_getElem present⟩

/-- A fitting tuple of inputs addresses the row whose number its digits write. -/
theorem index_input (shaped : box.Shaped) {input : List Nat}
    (fits : Tuple.Fits box.inputRange box.partyCount input) :
    box.index .input input = .ok (Tuple.place box.inputRange 0 input) := by
  have sameLength : input.length = box.inputs.length := fits.1
  simp [index, names, range, sameLength, Tuple.encode_eq_place fits shaped.rowWords.le]

/-- A fitting tuple of outputs addresses the column whose number its digits write. -/
theorem index_output (shaped : box.Shaped) {output : List Nat}
    (fits : Tuple.Fits box.outputRange box.partyCount output) :
    box.index .output output = .ok (Tuple.place box.outputRange 0 output) := by
  have sameLength : output.length = box.outputs.length := fits.1.trans shaped.balanced.symm
  simp [index, names, range, sameLength, Tuple.encode_eq_place fits shaped.columnWords.le]

/-- A tuple of outputs that addresses a column fits. -/
theorem fits_of_index_output (shaped : box.Shaped) {output : List Nat} {column : Nat}
    (indexed : box.index .output output = .ok column) :
    Tuple.Fits box.outputRange box.partyCount output := by
  unfold index at indexed
  split at indexed
  · cases indexed
  · next sameLength =>
    split at indexed
    · next encoded =>
      refine ⟨?_, Tuple.lt_of_encodeFrom encoded⟩
      rw [← shaped.balanced]
      exact not_not.mp sameLength
    · cases indexed
    · cases indexed

/-- Outputs that do not fit make every lookup with fitting inputs fail in the same way. -/
theorem prob_of_not_fits (shaped : box.Shaped) {output : List Nat}
    (unfit : ¬ Tuple.Fits box.outputRange box.partyCount output) :
    ∃ error, ∀ input, Tuple.Fits box.inputRange box.partyCount input →
      box.prob input output = .error error := by
  cases indexed : box.index .output output with
  | ok column => exact (unfit (shaped.fits_of_index_output indexed)).elim
  | error error => exact ⟨error, fun input fits => by simp [prob, shaped.index_input fits, indexed]⟩

/-- A fitting tuple of inputs has a row of its own. -/
theorem exists_rowOf (shaped : box.Shaped) {input : List Nat}
    (fits : Tuple.Fits box.inputRange box.partyCount input) :
    ∃ row ∈ box.matrix, box.matrix[Tuple.place box.inputRange 0 input]? = some row := by
  have inside : Tuple.place box.inputRange 0 input < box.matrix.length := by
    rw [shaped.rows]
    exact Tuple.place_lt fits
  exact ⟨_, List.getElem_mem inside, List.getElem?_eq_getElem inside⟩

/-- Looking up the output tuples in the order of the walk reads off the row of the
inputs. -/
theorem mapM_prob_walk (shaped : box.Shaped) {input : List Nat}
    (fits : Tuple.Fits box.inputRange box.partyCount input) :
    ∃ row ∈ box.matrix,
      (Tuple.walk box.outputRange box.partyCount).mapM (box.prob input) = .ok row := by
  obtain ⟨row, member, stored⟩ := shaped.exists_rowOf fits
  have columns := shaped.columns row member
  refine ⟨row, member, ?_⟩
  rw [Attempt.mapM_eq_ok_iff, List.forall₂_iff_get]
  refine ⟨by rw [Tuple.length_walk, columns], ?_⟩
  intro position inWalk inRow
  have outputFits := Tuple.mem_walk.mp (List.getElem_mem inWalk)
  have placed := Tuple.place_getElem_walk inWalk
  simp [prob, shaped.index_input fits, shaped.index_output outputFits, placed, cell?, stored,
    inRow]

/-- A lookup with fitting tuples finds a cell. -/
theorem exists_prob (shaped : box.Shaped) {input output : List Nat}
    (inputFits : Tuple.Fits box.inputRange box.partyCount input)
    (outputFits : Tuple.Fits box.outputRange box.partyCount output) :
    ∃ row ∈ box.matrix, ∃ value ∈ row, box.prob input output = .ok value := by
  obtain ⟨row, member, looked⟩ := shaped.mapM_prob_walk inputFits
  obtain ⟨value, found⟩ := Attempt.succeeds_of_mapM _ _ _ looked output
    (Tuple.mem_walk.mpr outputFits)
  refine ⟨row, member, value, ?_, found⟩
  exact (Attempt.mem_mapM _ _ _ looked value).mpr ⟨output, Tuple.mem_walk.mpr outputFits, found⟩

/-- With fitting tuples the likelihood is what the lookup finds. -/
theorem prob_eq {box : Box Rat} (shaped : box.Shaped) {input output : List Nat}
    (inputFits : Tuple.Fits box.inputRange box.partyCount input)
    (outputFits : Tuple.Fits box.outputRange box.partyCount output) :
    box.prob input output = .ok (box.likelihood input output) := by
  obtain ⟨row, -, value, -, found⟩ := shaped.exists_prob inputFits outputFits
  simp [likelihood, found, Except.toOption]

end Shaped

end Nonlocal.Box
